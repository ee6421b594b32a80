import IriumConsensus.Lib.MerkleBranch
import Mathlib.Data.List.Nodup
import Mathlib.Data.Nat.Log

namespace MerkleTree

open MerkleBranch

variable {α β : Type*} (combine : α → α → α) {xs : List α} {depth : Nat} {x : α}

/-- The pairs of one level; an odd last node is paired with itself. -/
def pairs : List α → List (α × α)
  | [] => []
  | [a] => [(a, a)]
  | a :: b :: rest => (a, b) :: pairs rest

def level (xs : List α) : List α := (pairs xs).map (Function.uncurry combine)

/-- The pairs combined on the way from the leaves to the level at this depth. -/
def treePairs : Nat → List α → List (α × α)
  | 0, _ => []
  | depth + 1, xs => pairs xs ++ treePairs depth (level combine xs)

theorem mem_of_mem_pairs {p : α × α} (h : p ∈ pairs xs) : p.1 ∈ xs ∧ p.2 ∈ xs := by
  fun_induction pairs xs with
  | case1 => simp at h
  | case2 a => simp_all
  | case3 a b rest ih =>
    rcases List.mem_cons.mp h with rfl | h
    · simp
    · exact ⟨by simp [(ih h).1], by simp [(ih h).2]⟩

theorem pairs_length (xs : List α) : (pairs xs).length = (xs.length + 1) / 2 := by
  fun_induction pairs xs with
  | case1 => simp
  | case2 a => simp
  | case3 a b rest ih => simp only [List.length_cons, ih]; omega

@[simp] theorem level_length (xs : List α) : (level combine xs).length = (xs.length + 1) / 2 := by
  rw [level, List.length_map, pairs_length]

theorem clog_level {n : Nat} (h : 2 ≤ n) : Nat.clog 2 n = Nat.clog 2 ((n + 1) / 2) + 1 :=
  Nat.clog_of_two_le Nat.one_lt_two h

theorem perm_of_map_perm [DecidableEq α] {f : α → β} {ys : List α} (inj : Set.InjOn f {x | x ∈ xs ∨ x ∈ ys})
    (h : (xs.map f).Perm (ys.map f)) : xs.Perm ys := by
  induction xs generalizing ys with
  | nil => simpa using h.symm
  | cons x xs ih =>
    obtain ⟨y, hy, hyx⟩ := List.mem_map.mp (h.mem_iff.mp (List.mem_map_of_mem List.mem_cons_self))
    obtain rfl := inj (.inr hy) (.inl List.mem_cons_self) hyx
    have hsplit := List.perm_cons_erase hy
    have hrest := (h.trans (hsplit.map f)).cons_inv
    have hperm := ih (inj.mono fun z hz => hz.imp (List.mem_cons_of_mem y) List.mem_of_mem_erase) hrest
    exact (hperm.cons y).trans hsplit.symm

def unpair {α : Type*} (ps : List (α × α)) : List α := ps.flatMap fun p => [p.1, p.2]

/-- The leaves with the copies that the levels above take of an odd last node. -/
def padded : Nat → {α : Type*} → List α → List α
  | 0, _, xs => xs
  | depth + 1, _, xs => unpair (padded depth (pairs xs))

/-- What stands beside a position on each level. -/
def siblingPath : Nat → List α → Nat → List α
  | 0, _, _ => []
  | depth + 1, xs, i =>
    (padded (depth + 1) xs)[if i % 2 = 0 then i + 1 else i - 1]?.toList ++ siblingPath depth (level combine xs) (i / 2)

theorem unpair_getElem? (ps : List (α × α)) (i : Nat) :
    (unpair ps)[i]? = ps[i / 2]?.map fun p => if i % 2 = 0 then p.1 else p.2 := by
  induction ps generalizing i with
  | nil => simp [unpair]
  | cons p ps ih =>
    match i with
    | 0 => rfl
    | 1 => rfl
    | i + 2 =>
      have hi : (i + 2) / 2 = i / 2 + 1 := by omega
      rw [hi, Nat.add_mod_right]
      exact ih i

theorem prefix_unpair_pairs (xs : List α) : xs <+: unpair (pairs xs) := by
  fun_induction pairs xs with
  | case1 => exact List.nil_prefix
  | case2 a => exact ⟨[a], rfl⟩
  | case3 a b rest ih =>
    obtain ⟨copies, h⟩ := ih
    exact ⟨copies, congrArg (a :: b :: ·) h⟩

theorem prefix_padded (depth : Nat) (xs : List α) : xs <+: padded depth xs := by
  induction depth generalizing α with
  | zero => exact List.prefix_rfl
  | succ depth ih =>
    obtain ⟨copies, h⟩ := ih (pairs xs)
    refine (prefix_unpair_pairs xs).trans ⟨unpair copies, ?_⟩
    rw [padded, ← h, unpair, unpair, unpair, List.flatMap_append]

theorem pairs_map (f : α → β) (xs : List α) : pairs (xs.map f) = (pairs xs).map (Prod.map f f) := by
  fun_induction pairs xs with
  | case1 => rfl
  | case2 a => rfl
  | case3 a b rest ih => simp [pairs, ih]

theorem padded_map (f : α → β) (depth : Nat) (xs : List α) :
    padded depth (xs.map f) = (padded depth xs).map f := by
  induction depth generalizing α β with
  | zero => rfl
  | succ depth ih =>
    rw [padded, padded, pairs_map, ih, unpair, unpair, List.flatMap_map, List.map_flatMap]
    rfl

theorem mem_of_mem_padded (h : x ∈ padded depth xs) : x ∈ xs := by
  induction depth generalizing α with
  | zero => exact h
  | succ depth ih =>
    obtain ⟨p, hp, hx⟩ := List.mem_flatMap.mp h
    obtain ⟨h1, h2⟩ := mem_of_mem_pairs (ih hp)
    simp only [List.mem_cons, List.not_mem_nil, or_false] at hx
    rcases hx with rfl | rfl
    · exact h1
    · exact h2

theorem padded_length (depth : Nat) (xs : List α) :
    (padded depth xs).length = 2 ^ depth * ((level combine)^[depth] xs).length := by
  induction depth generalizing xs with
  | zero => simp [padded]
  | succ depth ih =>
    have hup := ih (level combine xs)
    rw [level, padded_map, List.length_map] at hup
    have hlen : (unpair (padded depth (pairs xs))).length = 2 * (padded depth (pairs xs)).length := by
      simp [unpair, List.length_flatMap, Nat.mul_comm]
    rw [padded, hlen, hup, Function.iterate_succ_apply, Nat.pow_succ', Nat.mul_assoc]
    rfl

/-- From each position of the padded leaves, what stands beside it leads to the root. -/
theorem climb_siblingPath {root : α} {i : Nat} (hroot : (level combine)^[depth] xs = [root])
    (hx : (padded depth xs)[i]? = some x) :
    climb combine x (siblingPath combine depth xs i) i = root ∧
      (siblingPath combine depth xs i).length = depth ∧
      ∀ p ∈ climbPairs combine x (siblingPath combine depth xs i) i, p ∈ treePairs combine depth xs := by
  induction depth generalizing xs x i with
  | zero =>
    obtain rfl : xs = [root] := hroot
    have hmem := List.mem_of_getElem? hx
    exact ⟨by simpa [padded, siblingPath, climb] using hmem, rfl, by simp [siblingPath, climbPairs]⟩
  | succ depth ih =>
    rw [padded, unpair_getElem?, Option.map_eq_some_iff] at hx
    obtain ⟨p, hp, rfl⟩ := hx
    have hup : (padded depth (level combine xs))[i / 2]? = some (Function.uncurry combine p) := by
      rw [level, padded_map, List.getElem?_map, hp, Option.map_some]
    obtain ⟨hclimb, hlen, hpairs⟩ := ih hroot hup
    have hsibling : (padded (depth + 1) xs)[if i % 2 = 0 then i + 1 else i - 1]? =
        some (if i % 2 = 0 then p.2 else p.1) := by
      rw [padded, unpair_getElem?]
      by_cases h : i % 2 = 0
      · rw [if_pos h, if_pos h, show (i + 1) / 2 = i / 2 by omega, hp, Option.map_some, if_neg (by omega)]
      · rw [if_neg h, if_neg h, show (i - 1) / 2 = i / 2 by omega, hp, Option.map_some, if_pos (by omega)]
    have hchildren : children (if i % 2 = 0 then p.1 else p.2) (if i % 2 = 0 then p.2 else p.1) i = p := by
      unfold children
      split_ifs <;> rfl
    rw [siblingPath, hsibling, Option.toList_some, List.singleton_append, climb, climbPairs, hchildren]
    refine ⟨hclimb, by rw [List.length_cons, hlen], fun q hq => ?_⟩
    rcases List.mem_cons.mp hq with rfl | hq
    · exact List.mem_append_left _ (mem_of_mem_padded (List.mem_of_getElem? hp))
    · exact List.mem_append_right _ (hpairs q hq)

end MerkleTree
