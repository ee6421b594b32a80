import IriumConsensus.Lib.Codec
import Mathlib.Data.List.ReduceOption

namespace ByteCodec

variable {R : Type}

/-- An optional part of a record, written behind a tag of its own. -/
structure Section (R : Type) where
  tag : Bytes
  duplicate : String
  present : R → Bool
  read : R → Reader R

/-- The sections that a record may have, the length of their tags and the errors of the loop that reads them. -/
structure SectionFormat (R : Type) where
  sections : List (Section R)
  tagLen : Nat
  truncated : String
  unknown : String

variable (F : SectionFormat R)

def readSection (acc : R) : Reader R := do
  let tag ← readBytes F.tagLen F.truncated
  match F.sections.find? fun s => s.tag = tag with
  | none => throw F.unknown
  | some s => do
    rejectIf (s.present acc) s.duplicate
    s.read acc

def readSections : Nat → R → Reader R
  | 0, acc => pure acc
  | fuel + 1, acc => fun bs => if bs = [] then .ok (acc, []) else (readSection F acc >>= readSections fuel) bs

/-- From `acc` on, the sections in `bs` complete the record to `e`; every section takes at least its tag. -/
def Completes (acc : R) (bs : Bytes) (e : R) : Prop :=
  ∀ fuel, bs.length ≤ fuel → readSections F fuel acc bs = .ok (e, [])

variable {F}

theorem readSection_reads {acc acc' : R} {s : Section R} {body : Bytes} (hlen : s.tag.length = F.tagLen)
    (hfind : F.sections.find? (fun s' => s'.tag = s.tag) = some s) (hnew : s.present acc = false)
    (hread : Reads (s.read acc) body acc') : Reads (readSection F acc) (s.tag ++ body) acc' := by
  have hreject : ¬s.present acc := by rw [hnew]; exact Bool.false_ne_true
  have htag := readBytes_reads s.tag F.truncated
  rw [hlen] at htag
  refine htag.bind ?_
  rw [hfind]
  exact (rejectIf_reads hreject s.duplicate).bind hread

theorem completes_nil (e : R) : Completes F e [] e := by
  intro fuel _
  cases fuel <;> rfl

theorem Completes.step {acc acc' e : R} {bs rest : Bytes} (hbs : bs ≠ []) (hread : Reads (readSection F acc) bs acc')
    (hrest : Completes F acc' rest e) : Completes F acc (bs ++ rest) e := by
  intro fuel hfuel
  have hpos := List.length_pos_of_ne_nil hbs
  rw [List.length_append] at hfuel
  obtain ⟨fuel, rfl⟩ : ∃ n, fuel = n + 1 := ⟨fuel - 1, by omega⟩
  have hne : bs ++ rest ≠ [] := fun h => hbs (List.append_eq_nil_iff.mp h).1
  rw [readSections]
  dsimp only
  rw [if_neg hne, hread.bind_apply]
  exact hrest fuel (by omega)

theorem readSections_yields {P : R → Prop} (h : ∀ s ∈ F.sections, ∀ acc, P acc → Yields (s.read acc) P) (fuel : Nat)
    {acc : R} (hacc : P acc) : Yields (readSections F fuel acc) P := by
  have hone : ∀ acc, P acc → Yields (readSection F acc) P := by
    intro acc hacc
    refine yields_bind fun tag => ?_
    split
    next => exact yields_throw F.unknown
    next s hs => exact yields_bind fun _ => h s (List.mem_of_find?_eq_some hs) acc hacc
  induction fuel generalizing acc with
  | zero => exact yields_pure hacc
  | succ fuel ih =>
    intro bs e rest he
    rw [readSections] at he
    dsimp only at he
    split_ifs at he
    · rw [Except.ok.injEq, Prod.mk.injEq] at he
      exact he.1 ▸ hacc
    · exact (hone acc hacc).bind (fun acc' => ih) bs e rest he

end ByteCodec
