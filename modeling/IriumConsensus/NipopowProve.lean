import IriumConsensus.SpvNipopow

namespace IriumConsensus

open ByteCodec Checks

/-- The positions up to `last` whose level is at least `mu`. -/
def superIdxs (levels : List Nat) (last mu : Nat) : List Nat :=
  (List.range (last + 1)).filter fun i => mu ≤ levels.getD i 0

/-- One round of the loop of `nipopow_prove`: the positions it includes and its new end, if the level has enough
headers. -/
def proveLevel (levels : List Nat) (m last mu : Nat) : Option (List Nat × Nat) :=
  let idxs := superIdxs levels last mu
  if m ≤ idxs.length then
    let anchor := idxs.getD (idxs.length - m) 0
    some (idxs.takeWhile (· ≤ anchor) ++ [anchor], anchor)
  else none

/-- The rounds for the levels below `top`, from the highest down. -/
def proveLevels (levels : List Nat) (m : Nat) : Nat → Nat → List Nat
  | 0, _ => []
  | top + 1, last =>
    match proveLevel levels m last top with
    | some (marked, anchor) => if anchor = 0 then marked else marked ++ proveLevels levels m top anchor
    | none => proveLevels levels m top last

def includedIdxs (levels : List Nat) (m last : Nat) : List Nat :=
  0 :: last :: proveLevels levels m ((levels.take (last + 1)).max?.getD 0 + 1) last

def keepIncluded {α : Type*} (included : Nat → Bool) : Nat → List α → List α
  | _, [] => []
  | idx, x :: rest =>
    if included idx then x :: keepIncluded included (idx + 1) rest else keepIncluded included (idx + 1) rest

def nipopowProve (C : Crypto) (headers : List BlockHeader) (m k : Nat) : Except String NipopowProof := do
  failIf (headers = []) "cannot prove empty header set"
  let m := max m 1
  let k := min (max k 1) headers.length
  let suffixStart := headers.length - k
  if suffixStart = 0 then return ⟨m, k, [], headers⟩
  else
    let included := includedIdxs (headers.map (headerLevel C)) m (suffixStart - 1)
    return ⟨m, k, keepIncluded (included.contains ·) 0 (headers.take suffixStart), headers.drop suffixStart⟩

def superCount (C : Crypto) (mu : Nat) (headers : List BlockHeader) : Nat := headers.countP (mu ≤ headerLevel C ·)

section

variable {α : Type*} {included : Nat → Bool} {l : List α} {idx : Nat}

theorem keepIncluded_sublist (idx : Nat) (l : List α) : (keepIncluded included idx l).Sublist l := by
  induction l generalizing idx with
  | nil => exact .slnil
  | cons x rest ih =>
    rw [keepIncluded]
    split
    next => exact (ih _).cons_cons x
    next => exact (ih _).cons x

theorem keepIncluded_true (idx : Nat) (l : List α) : keepIncluded (fun _ => true) idx l = l := by
  induction l generalizing idx with
  | nil => rfl
  | cons x rest ih => rw [keepIncluded, if_pos rfl, ih]

theorem keepIncluded_head? (h : included idx) :
    (keepIncluded included idx l).head? = l.head? := by
  cases l with
  | nil => rfl
  | cons x rest => rw [keepIncluded, if_pos h, List.head?_cons, List.head?_cons]

theorem keepIncluded_concat (idx : Nat) (l : List α) (x : α) (h : included (idx + l.length)) :
    keepIncluded included idx (l ++ [x]) = keepIncluded included idx l ++ [x] := by
  induction l generalizing idx with
  | nil => simpa [keepIncluded] using h
  | cons y rest ih =>
    have hrest := ih (idx + 1) (by rwa [List.length_cons, ← Nat.add_assoc, Nat.add_right_comm] at h)
    simp only [List.cons_append, keepIncluded, hrest]
    split <;> rfl

theorem keepIncluded_getLast? (h : included (idx + (l.length - 1))) :
    (keepIncluded included idx l).getLast? = l.getLast? := by
  rcases l.eq_nil_or_concat with rfl | ⟨init, x, rfl⟩
  · rfl
  · rw [List.concat_eq_append] at h ⊢
    rw [keepIncluded_concat idx init x (by simpa using h), List.getLast?_concat, List.getLast?_concat]

theorem countP_keepIncluded {level : α → Nat} {f : Nat → Nat} (mu : Nat) (l : List α) (idx : Nat)
    (hf : ∀ i x, l[i]? = some x → f (idx + i) = level x) :
    (keepIncluded included idx l).countP (mu ≤ level ·) =
      ((List.range' idx l.length).filter (mu ≤ f ·)).countP included := by
  induction l generalizing idx with
  | nil => rfl
  | cons x rest ih =>
    have hx : f idx = level x := hf 0 x rfl
    have hrest := ih (idx + 1) fun i y hy => by rw [Nat.add_right_comm]; exact hf (i + 1) y hy
    rw [List.length_cons, List.range'_succ, List.filter_cons, hx, keepIncluded]
    by_cases hi : included idx <;> by_cases hmu : mu ≤ level x <;> simp [hi, hmu, hrest]

end

section

variable {levels l : List Nat} {m last mu i top : Nat}

theorem mem_superIdxs : i ∈ superIdxs levels last mu ↔ i ≤ last ∧ mu ≤ levels.getD i 0 := by
  rw [superIdxs, List.mem_filter, List.mem_range, Nat.lt_succ_iff, decide_eq_true_iff]

theorem superIdxs_pairwise (levels : List Nat) (last mu : Nat) : (superIdxs levels last mu).Pairwise (· < ·) :=
  List.pairwise_lt_range.filter _

theorem takeWhile_le_eq_filter (h : l.Pairwise (· < ·)) (a : Nat) :
    l.takeWhile (· ≤ a) = l.filter (· ≤ a) := by
  induction l with
  | nil => rfl
  | cons x rest ih =>
    obtain ⟨hx, hrest⟩ := List.pairwise_cons.mp h
    by_cases hle : x ≤ a
    · simp [hle, ih hrest]
    · have hnone : ∀ y ∈ rest, ¬y ≤ a := fun y hy hya => hle ((hx y hy).le.trans hya)
      simpa [hle] using hnone

theorem countP_le_getElem (h : l.Pairwise (· < ·)) {j : Nat} (hj : j < l.length) :
    l.countP (· ≤ l[j]) = j + 1 := by
  induction l generalizing j with
  | nil => simp at hj
  | cons x rest ih =>
    obtain ⟨hx, hrest⟩ := List.pairwise_cons.mp h
    cases j with
    | zero =>
      have hnone : rest.countP (· ≤ x) = 0 := List.countP_eq_zero.mpr fun y hy => by simpa using hx y hy
      simp [hnone]
    | succ j =>
      have hj' : j < rest.length := Nat.lt_of_succ_lt_succ hj
      have hle : x ≤ rest[j] := (hx _ (List.getElem_mem hj')).le
      simp [hle, ih hrest hj']

/-- A round includes the headers of its level up to the anchor, the `m`-th of them from the end. -/
theorem proveLevel_eq_some {marked : List Nat} {anchor : Nat} (hm : 1 ≤ m)
    (h : proveLevel levels m last mu = some (marked, anchor)) :
    anchor ∈ superIdxs levels last mu ∧ (∀ i, i ∈ marked ↔ i ∈ superIdxs levels last mu ∧ i ≤ anchor) ∧
      (superIdxs levels last mu).countP (· ≤ anchor) + m = (superIdxs levels last mu).length + 1 := by
  have hsorted := superIdxs_pairwise levels last mu
  unfold proveLevel at h
  generalize superIdxs levels last mu = idxs at h hsorted ⊢
  simp only at h
  split at h
  next hlen =>
    have hj : idxs.length - m < idxs.length := by omega
    have hget : idxs.getD (idxs.length - m) 0 = idxs[idxs.length - m] := by simp [hj]
    rw [hget, takeWhile_le_eq_filter hsorted] at h
    obtain ⟨rfl, rfl⟩ := Prod.mk.inj (Option.some.inj h)
    have hcount := countP_le_getElem hsorted hj
    refine ⟨List.getElem_mem hj, fun i => ?_, by omega⟩
    simp only [List.mem_append, List.mem_filter, decide_eq_true_eq, List.mem_singleton]
    constructor
    · rintro (h | rfl)
      · exact h
      · exact ⟨List.getElem_mem hj, le_rfl⟩
    · exact .inl
  next => cases h

theorem proveLevel_eq_none : proveLevel levels m last mu = none ↔ (superIdxs levels last mu).length < m := by
  simp [proveLevel]

theorem le_of_mem_proveLevels (hm : 1 ≤ m) (h : i ∈ proveLevels levels m top last) : i ≤ last := by
  induction top generalizing last with
  | zero => simp [proveLevels] at h
  | succ top ih =>
    rw [proveLevels] at h
    split at h
    next marked anchor hround =>
      obtain ⟨hanchor, hmarked, -⟩ := proveLevel_eq_some hm hround
      have hmem : i ∈ marked → i ≤ last := fun hi => (mem_superIdxs.mp ((hmarked i).mp hi).1).1
      split at h
      next => exact hmem h
      next =>
        rcases List.mem_append.mp h with h | h
        · exact hmem h
        · exact (ih h).trans (mem_superIdxs.mp hanchor).1
    next => exact ih h

/-- Of the highest level that has `m` headers, the loop keeps those up to the anchor of that level's round: the rounds
above do nothing, and those below look at the headers up to the anchor only. -/
theorem proveLevels_best (hm : 1 ≤ m) (htop : mu < top)
    (habove : ∀ nu, mu < nu → (superIdxs levels last nu).length < m) (hbest : m ≤ (superIdxs levels last mu).length) :
    ∃ anchor ∈ superIdxs levels last mu,
      (∀ i ∈ superIdxs levels last mu, i ∈ proveLevels levels m top last ↔ i ≤ anchor) ∧
      (superIdxs levels last mu).countP (· ≤ anchor) + m = (superIdxs levels last mu).length + 1 := by
  induction top with
  | zero => omega
  | succ top ih =>
    rcases Nat.lt_succ_iff_lt_or_eq.mp htop with hlt | rfl
    · rw [proveLevels, proveLevel_eq_none.mpr (habove top hlt)]
      exact ih hlt
    · cases hround : proveLevel levels m last mu with
      | none => exact absurd (proveLevel_eq_none.mp hround) (by omega)
      | some round =>
        obtain ⟨marked, anchor⟩ := round
        obtain ⟨hanchor, hmarked, hcount⟩ := proveLevel_eq_some hm hround
        refine ⟨anchor, hanchor, fun i hi => ?_, hcount⟩
        have hkept : i ∈ marked ↔ i ≤ anchor := by rw [hmarked, and_iff_right hi]
        rw [proveLevels, hround]
        simp only
        split
        next => exact hkept
        next =>
          rw [List.mem_append, hkept]
          exact or_iff_left_of_imp (le_of_mem_proveLevels hm)

theorem countP_le_or_eq (l : List Nat) {a b : Nat} (h : a < b) :
    l.countP (fun i => i ≤ a ∨ i = b) = l.countP (· ≤ a) + l.count b := by
  induction l with
  | nil => rfl
  | cons x rest ih =>
    rw [List.countP_cons, List.countP_cons, List.count_cons, ih]
    by_cases hx : x = b
    · simp [hx, Nat.add_assoc]
      omega
    · simp [hx]
      omega

theorem countP_includedIdxs (hm : 1 ≤ m) (habove : ∀ nu, mu < nu → (superIdxs levels last nu).length < m)
    (hbest : m ≤ (superIdxs levels last mu).length) (hlast : last < levels.length) :
    (superIdxs levels last mu).countP (includedIdxs levels m last).contains + m =
      (superIdxs levels last mu).length + 1 + if 2 ≤ m ∧ mu ≤ levels.getD last 0 then 1 else 0 := by
  have htop : mu < (levels.take (last + 1)).max?.getD 0 + 1 := by
    obtain ⟨i, hi⟩ := List.exists_mem_of_length_pos (hm.trans hbest)
    obtain ⟨hle, hlevel⟩ := mem_superIdxs.mp hi
    have hmem : levels.getD i 0 ∈ levels.take (last + 1) := by
      have hi' : i < levels.length := by omega
      have hget : levels.getD i 0 = levels[i] := by simp [hi']
      rw [hget]
      exact List.mem_take_iff_getElem.mpr ⟨i, by omega, rfl⟩
    exact Nat.lt_succ_of_le (hlevel.trans (List.le_max?_getD_of_mem hmem))
  obtain ⟨anchor, hanchor, hkept, hcount⟩ := proveLevels_best hm htop habove hbest
  have hincluded : (superIdxs levels last mu).countP (includedIdxs levels m last).contains =
      (superIdxs levels last mu).countP (fun i => i ≤ anchor ∨ i = last) := by
    refine List.countP_congr fun i hi => ?_
    have hzero : i = 0 → i ≤ anchor := fun h => by omega
    simp only [includedIdxs, List.contains_eq_mem, List.mem_cons, decide_eq_true_eq, hkept i hi]
    tauto
  rw [hincluded]
  by_cases hsuper : 2 ≤ m ∧ mu ≤ levels.getD last 0
  · have hmem : last ∈ superIdxs levels last mu := mem_superIdxs.mpr ⟨le_rfl, hsuper.2⟩
    have hlt : anchor < last := by
      refine lt_of_le_of_ne (mem_superIdxs.mp hanchor).1 fun heq => ?_
      have hall : (superIdxs levels last mu).countP (· ≤ anchor) = (superIdxs levels last mu).length :=
        List.countP_eq_length.mpr fun i hi => by simpa [heq] using (mem_superIdxs.mp hi).1
      omega
    have hone := List.count_eq_one_of_mem (superIdxs_pairwise levels last mu).nodup hmem
    rw [countP_le_or_eq _ hlt, if_pos hsuper, hone]
    omega
  · rw [if_neg hsuper]
    -- either the anchor is the last of the level, or the last position is not of the level
    have hsame : (superIdxs levels last mu).countP (fun i => i ≤ anchor ∨ i = last) =
        (superIdxs levels last mu).countP (· ≤ anchor) := by
      by_cases hm2 : 2 ≤ m
      · refine List.countP_congr fun i hi => ?_
        have hne : i ≠ last := fun h => hsuper ⟨hm2, h ▸ (mem_superIdxs.mp hi).2⟩
        simp [hne]
      · have hmono : (superIdxs levels last mu).countP (· ≤ anchor) ≤
            (superIdxs levels last mu).countP (fun i => i ≤ anchor ∨ i = last) :=
          List.countP_mono_left fun i _ h => by simp_all
        have hlen := List.countP_le_length (p := fun i => decide (i ≤ anchor ∨ i = last))
          (l := superIdxs levels last mu)
        omega
    omega

end

variable {C : Crypto} {headers : List BlockHeader}

theorem nipopowProve_eq (hne : headers ≠ []) (m k : Nat) :
    ∃ proof, nipopowProve C headers m k = .ok proof ∧ 1 ≤ proof.m ∧ 1 ≤ proof.k ∧
      proof.chi = headers.drop (headers.length - max k 1) ∧
      proof.pi = keepIncluded
        ((includedIdxs (headers.map (headerLevel C)) (max m 1) (headers.length - max k 1 - 1)).contains ·) 0
        (headers.take (headers.length - max k 1)) := by
  have hpos : 0 < headers.length := List.length_pos_iff.mpr hne
  have hstart : headers.length - min (max k 1) headers.length = headers.length - max k 1 := by omega
  simp only [nipopowProve, failIf, hne, if_false, hstart]
  by_cases hzero : headers.length - max k 1 = 0
  · refine ⟨_, if_pos hzero, by simp, by simp; omega, ?_, ?_⟩
    · simp [hzero]
    · simp [hzero, keepIncluded]
  · exact ⟨_, if_neg hzero, by simp, by simp; omega, rfl, rfl⟩

section

variable {idx : Nat}

theorem verifyPi_eq_ok {seen : List Hash32} {pi : List BlockHeader}
    (hwork : ∀ header ∈ pi, meetsTarget (header.hash C) header.target)
    (hgenesis : idx = 0 → ∀ header ∈ pi.head?, header.prevHash = ByteVec.zero 32) (hnodup : (pi.map (·.hash C)).Nodup)
    (hseen : ∀ header ∈ pi, header.hash C ∉ seen) :
    verifyPi C idx seen pi = .ok () := by
  induction pi generalizing idx seen with
  | nil => rfl
  | cons header rest ih =>
    obtain ⟨hnew, hrest⟩ := List.nodup_cons.mp hnodup
    simp only [verifyPi, bind_eq_ok, exists_unit, failIf_eq_ok, hwork header List.mem_cons_self]
    refine ⟨by simp, fun h => h.2 (hgenesis h.1 header rfl), hseen header List.mem_cons_self, ?_⟩
    refine ih (fun x hx => hwork x (List.mem_cons_of_mem _ hx)) (by simp) hrest fun x hx => ?_
    have hne : x.hash C ≠ header.hash C := fun heq => hnew (List.mem_map.mpr ⟨x, hx, heq⟩)
    exact List.not_mem_cons_of_ne_of_not_mem hne (hseen x (List.mem_cons_of_mem _ hx))

theorem verifyChi_eq_ok {prev : Option BlockHeader} {chi : List BlockHeader} (hproven : HeadersProven C chi)
    (hprev : ∀ header ∈ chi.head?, header.prevHash = prev.elim (ByteVec.zero 32) (·.hash C)) :
    verifyChi C idx prev chi = .ok () := by
  induction chi generalizing idx prev with
  | nil => rfl
  | cons header rest ih =>
    obtain ⟨hnext, hrest⟩ := List.isChain_cons.mp hproven.linked
    simp only [verifyChi, bind_eq_ok, exists_unit, failIf_eq_ok, hproven.work header List.mem_cons_self]
    refine ⟨by simp, by simp [hprev header rfl], ih ⟨fun x hx => hproven.work x (List.mem_cons_of_mem _ hx), hrest⟩ ?_⟩
    exact hnext

theorem HeadersProven.nodup (hproven : HeadersProven C headers) (hfree : CollisionFree C {h | h ∈ headers})
    (hgenesis : ∀ header ∈ headers.head?, header.prevHash = ByteVec.zero 32) :
    (headers.map (·.hash C)).Nodup := by
  have hreal := realChain_of_linked (H := {h | h ∈ headers}) (fun _ h => h) hproven.linked hgenesis
  exact (hreal.nodup hfree).map_on fun x hx y hy heq => hfree.injOn hx hy heq

/-- An honest proof is accepted, and keeps the first header and the suffix of the chain. -/
theorem nipopowProve_complete (m k : Nat) (hfree : CollisionFree C {h | h ∈ headers})
    (hok : verifyHeaderChain C headers = .ok ())
    (hgenesis : ∀ header ∈ headers.head?, header.prevHash = ByteVec.zero 32) :
    ∃ proof, nipopowProve C headers m k = .ok proof ∧ nipopowVerify C proof = .ok () ∧
      (proof.pi ++ proof.chi).Sublist headers ∧ (proof.pi ++ proof.chi).head? = headers.head? ∧
      headers.drop (headers.length - min (max k 1) headers.length) <:+ proof.pi ++ proof.chi := by
  obtain ⟨hne, hproven⟩ := verifyHeaderChain_eq_ok.mp hok
  obtain ⟨proof, hproof, hm, hk, hchi, hpi⟩ := nipopowProve_eq (C := C) hne m k
  have hpos := List.length_pos_iff.mpr hne
  have hsuffix : headers.length - min (max k 1) headers.length = headers.length - max k 1 := by omega
  have hlen : headers.length - max k 1 < headers.length := by omega
  rw [hsuffix]
  generalize headers.length - max k 1 = start at hchi hpi hlen ⊢
  have hsub : (proof.pi ++ proof.chi).Sublist headers := by
    have hkept : proof.pi.Sublist (headers.take start) := hpi ▸ keepIncluded_sublist 0 _
    have happend := hkept.append (.refl proof.chi)
    rwa [hchi, List.take_append_drop, ← hchi] at happend
  have hfirst : proof.pi.head? = (headers.take start).head? := by
    rw [hpi, keepIncluded_head? (by simp [includedIdxs])]
  have hlast : proof.pi.getLast? = (headers.take start).getLast? := by
    rw [hpi, keepIncluded_getLast?]
    simp [includedIdxs, List.length_take, Nat.min_eq_left hlen.le]
  have hhead : (proof.pi ++ proof.chi).head? = headers.head? := by
    rw [List.head?_append, hfirst, hchi, ← List.head?_append, List.take_append_drop]
  refine ⟨proof, hproof, ?_, hsub, hhead, hchi ▸ List.suffix_append _ _⟩
  simp only [nipopowVerify, bind_eq_ok, exists_unit, failIf_eq_ok]
  refine ⟨by simp [hchi, hlen], by omega, ?_, ?_⟩
  · have hpisub := (List.sublist_append_left proof.pi proof.chi).trans hsub
    refine verifyPi_eq_ok (fun x hx => hproven.work x (hpisub.subset hx)) (fun _ x hx => hgenesis x ?_)
      ((hproven.nodup hfree hgenesis).sublist (hpisub.map _)) (by simp)
    rw [← hhead, List.head?_append, Option.mem_def.mp hx]
    rfl
  · have hsplit := List.isChain_append.mp (List.take_append_drop start headers ▸ hproven.linked)
    refine verifyChi_eq_ok (hchi ▸ hproven.infix (List.drop_suffix _ _).isInfix) fun x hx => ?_
    rw [hchi] at hx
    rw [hlast]
    cases hend : (headers.take start).getLast? with
    | none =>
      rw [List.getLast?_eq_none_iff] at hend
      rw [hchi, hpi, hend] at hhead
      exact hgenesis x (by rw [← hhead]; exact hx)
    | some last => exact hsplit.2.2 last hend x hx

end

section

variable {m mu start : Nat} {included : Nat → Bool}

theorem superCount_keepIncluded (hstart : start < headers.length) (mu : Nat) :
    superCount C mu (keepIncluded included 0 (headers.take (start + 1))) =
      (superIdxs (headers.map (headerLevel C)) start mu).countP included := by
  rw [superCount, countP_keepIncluded (f := fun i => (headers.map (headerLevel C)).getD i 0), List.length_take,
    Nat.min_eq_left hstart, ← List.range_eq_range', superIdxs]
  intro i x hx
  have hi := (List.getElem?_eq_some_iff.mp hx).1
  rw [List.length_take] at hi
  rw [List.getElem?_take, if_pos (by omega)] at hx
  simp [hx]

theorem superCount_take (hstart : start < headers.length) (mu : Nat) :
    superCount C mu (headers.take (start + 1)) = (superIdxs (headers.map (headerLevel C)) start mu).length := by
  have h : superCount C mu (keepIncluded (fun _ => true) 0 (headers.take (start + 1))) = _ :=
    superCount_keepIncluded hstart mu
  rwa [keepIncluded_true, List.countP_true] at h

theorem superCount_anti {nu : Nat} (h : mu ≤ nu) (headers : List BlockHeader) :
    superCount C nu headers ≤ superCount C mu headers :=
  List.countP_mono_left fun x _ hx => by simp only [decide_eq_true_eq] at hx ⊢; omega

theorem exists_best (hm : 1 ≤ m) (h : m ≤ superCount C mu headers) :
    ∃ best, mu ≤ best ∧ m ≤ superCount C best headers ∧ superCount C (best + 1) headers < m := by
  have hnone : ∃ n, superCount C (mu + n) headers < m := by
    refine ⟨(headers.map (headerLevel C)).max?.getD 0 + 1, ?_⟩
    have hzero : superCount C (mu + ((headers.map (headerLevel C)).max?.getD 0 + 1)) headers = 0 := by
      refine List.countP_eq_zero.mpr fun header hmem => ?_
      have hle : headerLevel C header ≤ _ := List.le_max?_getD_of_mem (List.mem_map_of_mem hmem) (k := 0)
      simp only [decide_eq_true_eq, not_le]
      omega
    omega
  have hfirst := Nat.find_spec hnone
  have hbefore := fun n => Nat.find_min hnone (m := n)
  cases hn : Nat.find hnone with
  | zero =>
    rw [hn] at hfirst
    exact absurd h (by simpa using hfirst)
  | succ n =>
    rw [hn] at hfirst
    exact ⟨mu + n, by omega, not_lt.mp (hbefore n (by omega)), hfirst⟩

theorem superCount_getLast? (hstart : start < headers.length) :
    superCount C mu (headers.take (start + 1)).getLast?.toList =
      if mu ≤ (headers.map (headerLevel C)).getD start 0 then 1 else 0 := by
  rw [List.getLast?_take, if_neg (Nat.succ_ne_zero start), Nat.add_sub_cancel, List.getElem?_eq_getElem hstart]
  simp [superCount, List.countP_singleton, hstart]

end

theorem superCount_pi {m mu start : Nat} (hm : 1 ≤ m) (hstart : start < headers.length)
    (hbest : m ≤ superCount C mu (headers.take (start + 1)))
    (habove : superCount C (mu + 1) (headers.take (start + 1)) < m) :
    superCount C mu (keepIncluded ((includedIdxs (headers.map (headerLevel C)) m start).contains ·) 0
        (headers.take (start + 1))) + m =
      superCount C mu (headers.take (start + 1)) + 1 +
        if 2 ≤ m ∧ mu ≤ (headers.map (headerLevel C)).getD start 0 then 1 else 0 := by
  rw [superCount_keepIncluded hstart, superCount_take hstart]
  refine countP_includedIdxs hm (fun nu hnu => ?_) ?_ (by rwa [List.length_map])
  · rw [← superCount_take hstart]
    exact (superCount_anti hnu _).trans_lt habove
  · rwa [← superCount_take hstart]

/-- The proof keeps `m` headers of each level that has so many before the suffix exactly if the highest such level has
about twice as many: of that level the headers after the anchor are left out, but for the last one before the suffix. -/
theorem nipopowProve_keeps_iff {m k : Nat} {proof : NipopowProof} (hm : 1 ≤ m)
    (h : nipopowProve C headers m k = .ok proof) :
    (∀ mu, m ≤ superCount C mu (headers.take (headers.length - max k 1)) → m ≤ superCount C mu proof.pi) ↔
      ∀ mu, m ≤ superCount C mu (headers.take (headers.length - max k 1)) →
        superCount C (mu + 1) (headers.take (headers.length - max k 1)) < m →
        2 * m ≤ superCount C mu (headers.take (headers.length - max k 1)) + 1 +
          superCount C mu (headers.take (headers.length - max k 1)).getLast?.toList := by
  have hne : headers ≠ [] := by
    rintro rfl
    cases h
  obtain ⟨proof', hproof', -, -, -, hpi⟩ := nipopowProve_eq (C := C) hne m k
  obtain rfl : proof' = proof := Except.ok.inj (hproof'.symm.trans h)
  rw [hpi, max_eq_left hm]
  have hlen : headers.length - max k 1 < headers.length := by
    have := List.length_pos_iff.mpr hne
    omega
  generalize headers.length - max k 1 = start at hlen ⊢
  cases start with
  | zero =>
    have hnone : ∀ mu, superCount C mu (headers.take 0) = 0 := fun mu => rfl
    exact ⟨fun _ mu hmu => absurd (hnone mu) (by omega), fun _ mu hmu => absurd (hnone mu) (by omega)⟩
  | succ start =>
    rw [Nat.add_sub_cancel]
    have hstart : start < headers.length := by omega
    constructor
    · intro hkeeps mu hmu habove
      have hcount := superCount_pi hm hstart hmu habove
      have hkept := hkeeps mu hmu
      rw [superCount_getLast? hstart]
      split_ifs at hcount ⊢ <;> omega
    · intro hcond mu hmu
      obtain ⟨best, hle, hbest, habove⟩ := exists_best hm hmu
      have hcount := superCount_pi hm hstart hbest habove
      have htwice := hcond best hbest habove
      rw [superCount_getLast? hstart] at htwice
      refine le_trans ?_ (superCount_anti hle _)
      split_ifs at hcount htwice <;> omega

def openChain (parent : Hash32) : List UInt32 → List BlockHeader
  | [] => []
  | nonce :: rest =>
    let header := openHeader parent nonce
    header :: openChain (header.hash shaCrypto) rest

/-- Its first two headers are one level higher than its last two. -/
def heavyChain : List BlockHeader := openChain (ByteVec.zero 32) [11, 8, 0, 4]

def lightChain : List BlockHeader := openChain (ByteVec.zero 32) [0, 2, 2, 0]

theorem nipopowProve_complete_heavy :
    ∃ proof, nipopowProve shaCrypto heavyChain 2 1 = .ok proof ∧ nipopowVerify shaCrypto proof = .ok () :=
  have hnodup : (heavyChain.map (·.hash shaCrypto)).Nodup := by decide +kernel
  have hnonzero : ∀ header ∈ heavyChain, header.hash shaCrypto ≠ ByteVec.zero 32 := by decide +kernel
  have hfree : CollisionFree shaCrypto {h | h ∈ heavyChain} :=
    ⟨fun _ hx _ hy => List.inj_on_of_nodup_map hnodup hx hy, hnonzero⟩
  have ⟨proof, hproof, hverify, _⟩ := nipopowProve_complete 2 1 hfree (by decide +kernel) (by decide +kernel)
  ⟨proof, hproof, hverify⟩

deriving instance DecidableEq for NipopowProof

def heavyProof : NipopowProof := ⟨2, 1, [heavyChain.getD 0 openGenesis, heavyChain.getD 2 openGenesis], heavyChain.drop 3⟩

def lightProof : NipopowProof := ⟨2, 1, lightChain.take 3, lightChain.drop 3⟩

theorem nipopowProve_keeps_iff_light :
    nipopowProve shaCrypto lightChain 2 1 = .ok lightProof ∧ superCount shaCrypto 8 (lightChain.take 3) = 3 ∧
      ∀ mu, 2 ≤ superCount shaCrypto mu (lightChain.take 3) → 2 ≤ superCount shaCrypto mu lightProof.pi := by
  have hproof : nipopowProve shaCrypto lightChain 2 1 = .ok lightProof := by decide +kernel
  have hlevels : superCount shaCrypto 8 (lightChain.take 3) = 3 ∧ superCount shaCrypto 9 (lightChain.take 3) = 0 := by
    decide +kernel
  refine ⟨hproof, hlevels.1, (nipopowProve_keeps_iff (by decide) hproof).mpr fun mu hmu _ => ?_⟩
  change 2 ≤ superCount shaCrypto mu (lightChain.take 3) at hmu
  change 4 ≤ superCount shaCrypto mu (lightChain.take 3) + 1 + _
  have hlow : mu ≤ 8 := by
    by_contra hhigh
    have hnone := superCount_anti (C := shaCrypto) (by omega : 9 ≤ mu) (lightChain.take 3)
    omega
  have hall := superCount_anti (C := shaCrypto) hlow (lightChain.take 3)
  omega

/-- A chain with two headers of the higher level loses to one that has none, as its proof keeps one of the two. -/
theorem nipopowProve_drops_superblocks :
    nipopowProve shaCrypto heavyChain 2 1 = .ok heavyProof ∧ nipopowProve shaCrypto lightChain 2 1 = .ok lightProof ∧
      verifyHeaderChain shaCrypto heavyChain = .ok () ∧ superCount shaCrypto 9 (heavyChain.take 3) = 2 ∧
      superCount shaCrypto 9 heavyProof.pi = 1 ∧ superCount shaCrypto 9 lightChain = 0 ∧
      nipopowCompareProofs shaCrypto heavyProof lightProof 2 = .lt := by
  decide +kernel

end IriumConsensus
