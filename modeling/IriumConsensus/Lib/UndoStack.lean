import IriumConsensus.Lib.FinMap

namespace UndoStack

open FinMaps

variable {β υ ι κ : Type} [DecidableEq κ]

/-- A stack of items, newest first, with a table of undo data by key and a quantity that undoing an
item takes back. The table may lack an item, but what it holds fits the item, also after the items
above have been undone and their data removed. -/
def Rewinds (key : List β → β → κ) (Fits : List β → β → υ → Prop) (back : υ → ι → ι)
    (Inv : List β → ι → Prop) : List β → FinMap κ υ → ι → Prop
  | [], _, i => Inv [] i
  | b :: below, logs, i => Inv (b :: below) i ∧ ∀ u, logs.lookup (key below b) = some u →
      Fits below b u ∧ Rewinds key Fits back Inv below (logs.erase (key below b)) (back u i)

variable {key : List β → β → κ} {Fits : List β → β → υ → Prop} {back : υ → ι → ι} {Inv : List β → ι → Prop}
  {bs : List β} {b : β} {logs logs' : FinMap κ υ} {i i' : ι} {u : υ}

theorem Rewinds.inv (h : Rewinds key Fits back Inv bs logs i) : Inv bs i := by
  cases bs with
  | nil => exact h
  | cons b below => exact h.1

theorem Rewinds.mono (h : Rewinds key Fits back Inv bs logs i) (hl : Submap logs' logs) :
    Rewinds key Fits back Inv bs logs' i := by
  induction bs generalizing logs logs' i with
  | nil => exact h
  | cons b below ih =>
    refine ⟨h.1, fun u hu => ?_⟩
    obtain ⟨hf, hr⟩ := h.2 u (hl _ _ hu)
    exact ⟨hf, ih hr (hl.erase _)⟩

theorem Rewinds.push (h : Rewinds key Fits back Inv bs logs i) (hf : Fits bs b u) (hb : back u i' = i)
    (hi : Inv (b :: bs) i') : Rewinds key Fits back Inv (b :: bs) (logs.insert (key bs b) u) i' := by
  refine ⟨hi, fun v hv => ?_⟩
  rw [Finmap.lookup_insert, Option.some.injEq] at hv
  subst hv
  rw [erase_insert, hb]
  exact ⟨hf, h.mono (submap_erase logs _)⟩

theorem Rewinds.pop (h : Rewinds key Fits back Inv (b :: bs) logs i) (hu : logs.lookup (key bs b) = some u) :
    Fits bs b u ∧ Rewinds key Fits back Inv bs (logs.erase (key bs b)) (back u i) := h.2 u hu

end UndoStack
