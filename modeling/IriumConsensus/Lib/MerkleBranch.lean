import Mathlib.Data.Set.Function
import Mathlib.Data.Nat.ModEq

namespace MerkleBranch

variable {α : Type*} (combine : α → α → α) {x y : α} {i j : Nat} {xs ys : List α}

/-- The two children combined at one level; an even index puts the current node left. -/
def children (current sibling : α) (index : Nat) : α × α :=
  if index % 2 = 0 then (current, sibling) else (sibling, current)

/-- Climb a Merkle branch: bit `k` of the index gives the side at level `k`. -/
def climb : α → List α → Nat → α
  | current, [], _ => current
  | current, sibling :: branch, index =>
    climb (Function.uncurry combine (children current sibling index)) branch (index / 2)

def climbPairs : α → List α → Nat → List (α × α)
  | _, [], _ => []
  | current, sibling :: branch, index =>
    children current sibling index ::
      climbPairs (Function.uncurry combine (children current sibling index)) branch (index / 2)

theorem climb_append (current : α) (lower upper : List α) (index : Nat) :
    climb combine current (lower ++ upper) index =
      climb combine (climb combine current lower index) upper (index / 2 ^ lower.length) := by
  induction lower generalizing current index with
  | nil => simp [climb]
  | cons s lower ih =>
    simp only [List.cons_append, climb, ih, List.length_cons, Nat.div_div_eq_div_mul]
    rw [Nat.pow_succ, Nat.mul_comm]

theorem climbPairs_append (current : α) (lower upper : List α) (index : Nat) :
    climbPairs combine current (lower ++ upper) index = climbPairs combine current lower index ++
      climbPairs combine (climb combine current lower index) upper (index / 2 ^ lower.length) := by
  induction lower generalizing current index with
  | nil => simp [climb, climbPairs]
  | cons s lower ih =>
    simp only [List.cons_append, climb, climbPairs, ih, List.length_cons, Nat.div_div_eq_div_mul]
    rw [Nat.pow_succ, Nat.mul_comm]

theorem exists_pair_of_climb {branch : List α} (hne : branch ≠ []) (current : α) (index : Nat) :
    ∃ p ∈ climbPairs combine current branch index,
      climb combine current branch index = Function.uncurry combine p := by
  induction branch generalizing current index with
  | nil => exact absurd rfl hne
  | cons s branch ih =>
    by_cases hb : branch = []
    · subst hb
      exact ⟨_, by simp [climbPairs], rfl⟩
    · obtain ⟨p, hp, he⟩ := ih hb (Function.uncurry combine (children current s index)) (index / 2)
      exact ⟨p, List.mem_cons_of_mem _ hp, he⟩

theorem children_inj {s t : α} (hij : i % 2 = j % 2) (h : children x s i = children y t j) : x = y := by
  unfold children at h
  rw [hij] at h
  split at h <;> simp_all

theorem climb_start_eq
    (inj : Set.InjOn (Function.uncurry combine) {p | p ∈ climbPairs combine x xs i ∨ p ∈ climbPairs combine y ys j})
    (hlen : xs.length = ys.length) (hidx : i % 2 ^ xs.length = j % 2 ^ xs.length)
    (hroot : climb combine x xs i = climb combine y ys j) : x = y := by
  induction xs generalizing x y ys i j with
  | nil =>
    have hy : ys = [] := List.length_eq_zero_iff.mp hlen.symm
    subst hy
    exact hroot
  | cons s xs ih =>
    cases ys with
    | nil => simp at hlen
    | cons t ys =>
      have hbit : i % 2 = j % 2 := by
        have h := congrArg (· % 2) hidx
        simpa only [List.length_cons, Nat.pow_succ', Nat.mod_mul_right_mod] using h
      have hrest : i / 2 % 2 ^ xs.length = j / 2 % 2 ^ xs.length := by
        have h := congrArg (· / 2) hidx
        simpa only [List.length_cons, Nat.pow_succ', Nat.mod_mul_right_div_self] using h
      have hnode := ih (inj.mono (by
        intro p hp
        exact hp.imp (List.mem_cons_of_mem _) (List.mem_cons_of_mem _))) (by simpa using hlen) hrest hroot
      exact children_inj hbit (inj (Or.inl (by simp [climbPairs])) (Or.inr (by simp [climbPairs])) hnode)

theorem climb_joins
    (inj : Set.InjOn (Function.uncurry combine) {p | p ∈ climbPairs combine x xs i ∨ p ∈ climbPairs combine y ys j})
    (hlen : ys.length ≤ xs.length) (hidx : i / 2 ^ (xs.length - ys.length) % 2 ^ ys.length = j % 2 ^ ys.length)
    (hroot : climb combine x xs i = climb combine y ys j) :
    climb combine x (xs.take (xs.length - ys.length)) i = y := by
  have hk : (xs.take (xs.length - ys.length)).length = xs.length - ys.length := by simp
  have hdrop : (xs.drop (xs.length - ys.length)).length = ys.length := by simp; omega
  rw [← List.take_append_drop (xs.length - ys.length) xs, climbPairs_append, hk] at inj
  rw [← List.take_append_drop (xs.length - ys.length) xs, climb_append, hk] at hroot
  refine climb_start_eq combine (inj.mono ?_) hdrop (by rw [hdrop]; exact hidx) hroot
  intro p hp
  exact hp.imp_left (List.mem_append_right _)

end MerkleBranch
