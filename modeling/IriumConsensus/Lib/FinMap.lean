import Mathlib.Data.Finmap
import Mathlib.Algebra.BigOperators.Group.Finset.Basic
import Mathlib.Algebra.GroupWithZero.Nat

namespace FinMaps

abbrev FinMap (K V : Type) := Finmap fun _ : K => V

variable {K V : Type} [DecidableEq K] {m m' : FinMap K V} {v : V} {k : K} {ks : List K} {kvs : List (K × V)}

theorem lookup_insert_eq (m : FinMap K V) (k k' : K) (v : V) :
    (m.insert k v).lookup k' = if k' = k then some v else m.lookup k' := by
  split
  next h => rw [h, Finmap.lookup_insert]
  next h => rw [Finmap.lookup_insert_of_ne _ h]

theorem lookup_erase_eq (m : FinMap K V) (k k' : K) :
    (m.erase k).lookup k' = if k' = k then none else m.lookup k' := by
  split
  next h => rw [h, Finmap.lookup_erase]
  next h => rw [Finmap.lookup_erase_ne h]

def eraseAll (m : FinMap K V) (ks : List K) : FinMap K V := ks.foldl (fun m k => m.erase k) m

/-- Insert the pairs of a list in order; a later pair replaces an earlier one. -/
def insertAll (m : FinMap K V) (kvs : List (K × V)) : FinMap K V :=
  kvs.foldl (fun m kv => m.insert kv.1 kv.2) m

@[simp] theorem eraseAll_nil (m : FinMap K V) : eraseAll m [] = m := rfl

@[simp] theorem eraseAll_cons (m : FinMap K V) (k : K) (ks : List K) :
    eraseAll m (k :: ks) = eraseAll (m.erase k) ks := rfl

@[simp] theorem insertAll_nil (m : FinMap K V) : insertAll m [] = m := rfl

@[simp] theorem insertAll_cons (m : FinMap K V) (kv : K × V) (kvs : List (K × V)) :
    insertAll m (kv :: kvs) = insertAll (m.insert kv.1 kv.2) kvs := rfl

theorem insertAll_concat (m : FinMap K V) (kvs : List (K × V)) (kv : K × V) :
    insertAll m (kvs ++ [kv]) = (insertAll m kvs).insert kv.1 kv.2 := by
  simp [insertAll]

theorem lookup_eraseAll (m : FinMap K V) (ks : List K) (k : K) :
    (eraseAll m ks).lookup k = if k ∈ ks then none else m.lookup k := by
  induction ks generalizing m with
  | nil => simp
  | cons x xs ih =>
    rw [eraseAll_cons, ih, lookup_erase_eq]
    by_cases hx : k = x <;> by_cases hxs : k ∈ xs <;> simp [hx, hxs]

theorem lookup_insertAll_of_notMem
    (h : k ∉ kvs.map Prod.fst) : (insertAll m kvs).lookup k = m.lookup k := by
  induction kvs generalizing m with
  | nil => rfl
  | cons kv kvs ih =>
    simp only [List.map_cons, List.mem_cons, not_or] at h
    rw [insertAll_cons, ih h.2, lookup_insert_eq, if_neg h.1]

theorem lookup_insertAll_of_mem
    (h : k ∈ kvs.map Prod.fst) : ∃ v, (k, v) ∈ kvs ∧ (insertAll m kvs).lookup k = some v := by
  induction kvs generalizing m with
  | nil => simp at h
  | cons kv kvs ih =>
    by_cases hk : k ∈ kvs.map Prod.fst
    · obtain ⟨v, hv, hl⟩ := ih (m := m.insert kv.1 kv.2) hk
      exact ⟨v, by simp [hv], hl⟩
    · have he : k = kv.1 := by
        rw [List.map_cons, List.mem_cons] at h
        exact h.resolve_right hk
      refine ⟨kv.2, by simp [he], ?_⟩
      rw [insertAll_cons, lookup_insertAll_of_notMem hk, he, Finmap.lookup_insert]

theorem lookup_insertAll_of_nodup
    (hn : (kvs.map Prod.fst).Nodup) (h : (k, v) ∈ kvs) : (insertAll m kvs).lookup k = some v := by
  obtain ⟨w, hw, hl⟩ := lookup_insertAll_of_mem (m := m) (List.mem_map_of_mem (f := Prod.fst) h)
  have he : (k, w) = (k, v) := List.inj_on_of_nodup_map hn hw h rfl
  obtain rfl := congrArg Prod.snd he
  exact hl

theorem mem_insertAll :
    k ∈ insertAll m kvs ↔ k ∈ m ∨ k ∈ kvs.map Prod.fst := by
  induction kvs generalizing m with
  | nil => simp
  | cons kv kvs ih =>
    rw [insertAll_cons, ih, Finmap.mem_insert, List.map_cons, List.mem_cons]
    tauto

theorem mem_eraseAll :
    k ∈ eraseAll m ks ↔ k ∈ m ∧ k ∉ ks := by
  rw [← Finmap.lookup_isSome, lookup_eraseAll, ← Finmap.lookup_isSome]
  split <;> simp_all

theorem lookup_insertAll_map {W : Type} (f : V → W) {m' : FinMap K W}
    (h : ∀ k, m'.lookup k = (m.lookup k).map f) (kvs : List (K × V)) (k : K) :
    (insertAll m' (kvs.map fun kv => (kv.1, f kv.2))).lookup k = ((insertAll m kvs).lookup k).map f := by
  induction kvs generalizing m m' with
  | nil => exact h k
  | cons kv kvs ih =>
    rw [List.map_cons, insertAll_cons, insertAll_cons]
    refine ih fun x => ?_
    rw [lookup_insert_eq, lookup_insert_eq]
    split
    next => rfl
    next => exact h x

theorem eraseAll_insertAll
    (h : ∀ k ∈ kvs.map Prod.fst, k ∉ m) : eraseAll (insertAll m kvs) (kvs.map Prod.fst) = m := by
  apply Finmap.ext_lookup
  intro k
  rw [lookup_eraseAll]
  split
  next hk => exact (Finmap.lookup_eq_none.mpr (h k hk)).symm
  next hk => exact lookup_insertAll_of_notMem hk

def entriesAt (m : FinMap K V) (ks : List K) : List (K × V) :=
  ks.filterMap fun k => (m.lookup k).map fun v => (k, v)

theorem mem_entriesAt :
    (k, v) ∈ entriesAt m ks ↔ k ∈ ks ∧ m.lookup k = some v := by
  simp only [entriesAt, List.mem_filterMap, Option.map_eq_some_iff, Prod.mk.injEq]
  constructor
  · rintro ⟨_, hk, _, hv, rfl, rfl⟩
    exact ⟨hk, hv⟩
  · rintro ⟨hk, hv⟩
    exact ⟨k, hk, v, hv, rfl, rfl⟩

theorem lookup_insertAll_entriesAt :
    (insertAll m' (entriesAt m ks)).lookup k = if k ∈ ks ∧ k ∈ m then m.lookup k else m'.lookup k := by
  by_cases hk : k ∈ (entriesAt m ks).map Prod.fst
  · obtain ⟨v, hv, hl⟩ := lookup_insertAll_of_mem (m := m') hk
    obtain ⟨hks, hlook⟩ := mem_entriesAt.mp hv
    rw [hl, if_pos ⟨hks, Finmap.mem_of_lookup_eq_some hlook⟩, hlook]
  · rw [lookup_insertAll_of_notMem hk, if_neg]
    rintro ⟨hks, hm⟩
    obtain ⟨v, hv⟩ := Finmap.mem_iff.mp hm
    exact hk (List.mem_map.mpr ⟨(k, v), mem_entriesAt.mpr ⟨hks, hv⟩, rfl⟩)

theorem length_entriesAt (hks : ∀ k ∈ ks, k ∈ m) : (entriesAt m ks).length = ks.length := by
  induction ks with
  | nil => rfl
  | cons k ks ih =>
    obtain ⟨v, hv⟩ := Finmap.mem_iff.mp (hks k List.mem_cons_self)
    have hrest := ih fun x hx => hks x (List.mem_cons_of_mem k hx)
    simpa [entriesAt, hv] using hrest

theorem insertAll_entriesAt (hks : ∀ k, k ∈ m → k ∈ ks) : insertAll ∅ (entriesAt m ks) = m := by
  apply Finmap.ext_lookup
  intro k
  rw [lookup_insertAll_entriesAt]
  split
  next => rfl
  next h =>
    rw [Finmap.lookup_empty]
    exact (Finmap.lookup_eq_none.mpr fun hk => h ⟨hks k hk, hk⟩).symm

theorem lookup_undo (hks : ∀ k ∈ ks, k ∈ m) (kvs : List (K × V)) (k : K) :
    (insertAll (eraseAll (insertAll (eraseAll m ks) kvs) (kvs.map Prod.fst)) (entriesAt m ks)).lookup k =
      if k ∈ kvs.map Prod.fst ∧ k ∉ ks then none else m.lookup k := by
  rw [lookup_insertAll_entriesAt, lookup_eraseAll]
  by_cases hk : k ∈ ks
  · simp [hk, hks k hk]
  · by_cases hc : k ∈ kvs.map Prod.fst
    · simp only [hk, hc, false_and, ↓reduceIte, not_false_eq_true, and_self]
    · simp only [hk, hc, false_and, ↓reduceIte]
      rw [lookup_insertAll_of_notMem hc, lookup_eraseAll, if_neg hk]

theorem undo_eq_iff (hks : ∀ k ∈ ks, k ∈ m) (kvs : List (K × V)) :
    insertAll (eraseAll (insertAll (eraseAll m ks) kvs) (kvs.map Prod.fst)) (entriesAt m ks) = m ↔
      ∀ k ∈ kvs.map Prod.fst, k ∈ m → k ∈ ks := by
  constructor
  · intro h k hc hm
    by_contra hk
    have hl := lookup_undo hks kvs k
    rw [h, if_pos ⟨hc, hk⟩, Finmap.lookup_eq_none] at hl
    exact hl hm
  · intro h
    apply Finmap.ext_lookup
    intro k
    rw [lookup_undo hks]
    split
    next hk => exact (Finmap.lookup_eq_none.mpr fun hm => hk.2 (h k hk.1 hm)).symm
    next => rfl

def retain (p : K → V → Bool) (m : FinMap K V) : FinMap K V where
  entries := m.entries.filter fun e => p e.1 e.2
  nodupKeys := by
    have h := Multiset.nodup_keys.mpr m.nodupKeys
    exact Multiset.nodup_keys.mp
      (Multiset.nodup_of_le (Multiset.map_le_map (Multiset.filter_le _ _)) h)

theorem lookup_retain (p : K → V → Bool) (m : FinMap K V) (k : K) :
    (retain p m).lookup k = (m.lookup k).filter (p k) := by
  apply Option.ext
  intro v
  rw [Finmap.lookup_eq_some_iff, Option.filter_eq_some_iff, Finmap.lookup_eq_some_iff]
  simp [retain]

def Submap (m m' : FinMap K V) : Prop := ∀ k v, m.lookup k = some v → m'.lookup k = some v

theorem Submap.refl (m : FinMap K V) : Submap m m := fun _ _ h => h

theorem submap_insert_of_notMem (h : k ∉ m) : Submap m (m.insert k v) := by
  intro x w hx
  rw [lookup_insert_eq]
  split
  next he =>
    rw [he, Finmap.lookup_eq_none.mpr h] at hx
    simp at hx
  next => exact hx

theorem Submap.erase (h : Submap m m') (k : K) : Submap (m.erase k) (m'.erase k) := by
  intro x v hx
  rw [lookup_erase_eq] at hx ⊢
  split at hx
  next => simp at hx
  next hne =>
    rw [if_neg hne]
    exact h x v hx

theorem submap_retain (p : K → V → Bool) (m : FinMap K V) : Submap (retain p m) m := by
  intro k v h
  rw [lookup_retain] at h
  exact (Option.filter_eq_some_iff.mp h).1

theorem submap_erase (m : FinMap K V) (k : K) : Submap (m.erase k) m := by
  intro x v hx
  rw [lookup_erase_eq] at hx
  split at hx
  next => simp at hx
  next => exact hx

theorem erase_insert (m : FinMap K V) (k : K) (v : V) : (m.insert k v).erase k = m.erase k := by
  apply Finmap.ext_lookup
  intro x
  rw [lookup_erase_eq, lookup_erase_eq, lookup_insert_eq]
  split <;> rfl

theorem erase_of_notMem (h : k ∉ m) : m.erase k = m := by
  apply Finmap.ext_lookup
  intro x
  rw [lookup_erase_eq]
  split
  next hx => rw [hx, Finmap.lookup_eq_none.mpr h]
  next => rfl

theorem Submap.eraseAll (h : Submap m m') (ks : List K) :
    Submap (eraseAll m ks) (FinMaps.eraseAll m' ks) := by
  intro x v hx
  rw [lookup_eraseAll] at hx ⊢
  split at hx
  next => simp at hx
  next hne =>
    rw [if_neg hne]
    exact h x v hx

theorem Submap.insertAll (h : Submap m m') (kvs : List (K × V)) :
    Submap (insertAll m kvs) (FinMaps.insertAll m' kvs) := by
  induction kvs generalizing m m' with
  | nil => exact h
  | cons kv kvs ih =>
    refine ih fun x v hx => ?_
    rw [lookup_insert_eq] at hx ⊢
    split at hx
    next he =>
      rw [if_pos he]
      exact hx
    next hne =>
      rw [if_neg hne]
      exact h x v hx

def total (f : V → Nat) (m : FinMap K V) : Nat := (m.entries.map fun e => f e.2).sum

omit [DecidableEq K] in
@[simp] theorem total_empty (f : V → Nat) : total f (∅ : FinMap K V) = 0 := rfl

theorem total_insert_of_notMem (f : V → Nat) (h : k ∉ m) :
    total f (m.insert k v) = f v + total f m := by
  rw [total, Finmap.entries_insert_of_notMem h, Multiset.map_cons, Multiset.sum_cons]
  rfl

theorem insert_erase (m : FinMap K V) (k : K) (v : V) : (m.erase k).insert k v = m.insert k v := by
  apply Finmap.ext_lookup
  intro x
  rw [lookup_insert_eq, lookup_insert_eq, lookup_erase_eq]
  split <;> rfl

theorem insert_of_lookup (h : m.lookup k = some v) : m.insert k v = m := by
  apply Finmap.ext_lookup
  intro x
  rw [lookup_insert_eq]
  split
  next hx => rw [hx, h]
  next => rfl

theorem insert_erase_self (m : FinMap K V) (h : m.lookup k = some v) :
    (m.erase k).insert k v = m := by
  rw [insert_erase, insert_of_lookup h]

theorem total_erase (f : V → Nat) (h : m.lookup k = some v) :
    f v + total f (m.erase k) = total f m := by
  rw [← total_insert_of_notMem f Finmap.notMem_erase_self, insert_erase_self m h]

theorem total_insert_le (f : V → Nat) (m : FinMap K V) (k : K) (v : V) :
    total f (m.insert k v) ≤ f v + total f m := by
  by_cases h : k ∈ m
  · obtain ⟨w, hw⟩ := Finmap.mem_iff.mp h
    have he : m.insert k v = (m.erase k).insert k v := by
      apply Finmap.ext_lookup
      intro x
      rw [lookup_insert_eq, lookup_insert_eq, lookup_erase_eq]
      split <;> rfl
    rw [he, total_insert_of_notMem f Finmap.notMem_erase_self, ← total_erase f hw]
    omega
  · rw [total_insert_of_notMem f h]

theorem total_insertAll_le (f : V → Nat) (m : FinMap K V) (kvs : List (K × V)) :
    total f (insertAll m kvs) ≤ (kvs.map fun kv => f kv.2).sum + total f m := by
  induction kvs generalizing m with
  | nil => simp
  | cons kv kvs ih =>
    have h := ih (m.insert kv.1 kv.2)
    have h' := total_insert_le f m kv.1 kv.2
    simp only [insertAll_cons, List.map_cons, List.sum_cons]
    omega

theorem total_eraseAll (f : V → Nat)
    (hn : (kvs.map Prod.fst).Nodup) (hm : ∀ kv ∈ kvs, m.lookup kv.1 = some kv.2) :
    (kvs.map fun kv => f kv.2).sum + total f (eraseAll m (kvs.map Prod.fst)) = total f m := by
  induction kvs generalizing m with
  | nil => simp
  | cons kv kvs ih =>
    simp only [List.map_cons, List.nodup_cons] at hn
    have hrest : ∀ x ∈ kvs, (m.erase kv.1).lookup x.1 = some x.2 := by
      intro x hx
      have hne : x.1 ≠ kv.1 := fun he => hn.1 (he ▸ List.mem_map_of_mem hx)
      rw [lookup_erase_eq, if_neg hne]
      exact hm x (by simp [hx])
    have h := ih hn.2 hrest
    have h' := total_erase f (hm kv (by simp))
    simp only [List.map_cons, List.sum_cons, eraseAll_cons]
    omega

omit [DecidableEq K] in
theorem sum_map_indicator (p : V → Bool) (es : Multiset (Σ _ : K, V)) :
    (es.map fun e => if p e.2 then 1 else 0).sum = Multiset.card (es.filter fun e => p e.2) := by
  induction es using Multiset.induction_on with
  | empty => rfl
  | cons e es ih =>
    rw [Multiset.map_cons, Multiset.sum_cons, ih, Multiset.filter_cons, Multiset.card_add]
    by_cases h : p e.2 <;> simp [h]

theorem total_indicator (p : V → Bool) (m : FinMap K V) :
    total (fun v => if p v then 1 else 0) m = (m.keys.filter fun k => (m.lookup k).any p).card := by
  have hkeys : (m.keys.filter fun k => (m.lookup k).any p).val =
      (m.entries.filter fun e => p e.2).map Sigma.fst := by
    rw [Finset.filter_val]
    change Multiset.filter _ (m.entries.map Sigma.fst) = _
    rw [Multiset.filter_map]
    congr 1
    refine Multiset.filter_congr fun e he => ?_
    have hl : m.lookup e.1 = some e.2 := Finmap.lookup_eq_some_iff.mpr he
    simp [hl]
  rw [total, sum_map_indicator, Finset.card_def, hkeys, Multiset.card_map]

theorem total_eq_sum_keys (f : V → Nat) (m : FinMap K V) :
    total f m = (m.keys.val.map fun k => ((m.lookup k).map f).getD 0).sum := by
  have hkeys : m.keys.val = m.entries.map Sigma.fst := rfl
  rw [hkeys, Multiset.map_map, total]
  congr 1
  refine Multiset.map_congr rfl fun e he => ?_
  have hl : m.lookup e.1 = some e.2 := Finmap.lookup_eq_some_iff.mpr he
  simp [hl]

theorem total_retain_eq_sum (f : V → Nat) (p : K → Bool) {S : Finset K} (hp : ∀ k ∈ S, p k)
    (hS : ∀ k ∈ m, p k → k ∈ S) :
    total f (retain (fun k _ => p k) m) = ∑ k ∈ S, ((m.lookup k).map f).getD 0 := by
  have hlookup : ∀ k ∈ S, (retain (fun k _ => p k) m).lookup k = m.lookup k := by
    intro k hk
    rw [lookup_retain]
    cases m.lookup k with
    | none => rfl
    | some v => simp [hp k hk]
  have hkeys : (retain (fun k _ => p k) m).keys ⊆ S := by
    intro k hk
    obtain ⟨v, hv⟩ := Finmap.mem_iff.mp (Finmap.mem_keys.mp hk)
    rw [lookup_retain, Option.filter_eq_some_iff] at hv
    exact hS k (Finmap.mem_of_lookup_eq_some hv.1) hv.2
  rw [total_eq_sum_keys]
  change ∑ k ∈ (retain (fun k _ => p k) m).keys, _ = _
  rw [Finset.sum_subset hkeys fun k _ hnot => ?_]
  · exact Finset.sum_congr rfl fun k hk => by rw [hlookup k hk]
  · rw [Finmap.mem_keys] at hnot
    rw [Finmap.lookup_eq_none.mpr hnot]
    rfl

theorem total_congr {f : V → Nat} (h : ∀ k, (m.lookup k).map f = (m'.lookup k).map f) :
    total f m = total f m' := by
  have hkeys : m.keys = m'.keys := by
    ext k
    have hk := congrArg Option.isSome (h k)
    rw [Option.isSome_map, Option.isSome_map] at hk
    rw [Finmap.mem_keys, Finmap.mem_keys, ← Finmap.lookup_isSome, ← Finmap.lookup_isSome, hk]
  simp only [total_eq_sum_keys, hkeys, h]

theorem Submap.total_le (f : V → Nat) (h : Submap m m') :
    total f m ≤ total f m' := by
  have hle : m.entries ≤ m'.entries := by
    rw [Multiset.le_iff_subset m.nodup_entries]
    rintro ⟨k, v⟩ hkv
    exact Finmap.lookup_eq_some_iff.mp (h k v (Finmap.lookup_eq_some_iff.mpr hkv))
  obtain ⟨rest, hrest⟩ := Multiset.le_iff_exists_add.mp hle
  simp only [total, hrest, Multiset.map_add, Multiset.sum_add]
  omega

end FinMaps
