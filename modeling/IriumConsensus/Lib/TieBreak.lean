import Mathlib.Order.Lattice

namespace TieBreak

variable {α β : Type} {xs ys : List α}

/-- The two sequences do not differ as far as both of them reach. -/
def Agree : List α → List α → Prop
  | x :: xs, y :: ys => x = y ∧ Agree xs ys
  | _, _ => True

instance decidableAgree [DecidableEq α] : (xs ys : List α) → Decidable (Agree xs ys)
  | x :: xs, y :: ys =>
    have := decidableAgree xs ys
    inferInstanceAs (Decidable (x = y ∧ Agree xs ys))
  | [], _ => .isTrue (by simp [Agree])
  | _ :: _, [] => .isTrue trivial

theorem Agree.symm (h : Agree xs ys) : Agree ys xs := by
  induction xs generalizing ys with
  | nil => cases ys <;> trivial
  | cons x xs ih =>
    cases ys with
    | nil => trivial
    | cons y ys => exact ⟨h.1.symm, ih h.2⟩

variable [LinearOrder α] [LinearOrder β] {x y : List α × β}

/-- At the first place where the sequences differ the first one is smaller. -/
def Before : List α → List α → Prop
  | x :: xs, y :: ys => x < y ∨ x = y ∧ Before xs ys
  | _, _ => False

instance decidableBefore : (xs ys : List α) → Decidable (Before xs ys)
  | x :: xs, y :: ys =>
    have := decidableBefore xs ys
    inferInstanceAs (Decidable (x < y ∨ x = y ∧ Before xs ys))
  | [], _ => .isFalse (by simp [Before])
  | _ :: _, [] => .isFalse (by simp [Before])

theorem before_or_before (h : ¬Agree xs ys) : Before xs ys ∨ Before ys xs := by
  induction xs generalizing ys with
  | nil => exact absurd trivial h
  | cons x xs ih =>
    cases ys with
    | nil => exact absurd trivial h
    | cons y ys =>
      rcases lt_trichotomy x y with hlt | rfl | hlt
      · exact .inl (.inl hlt)
      · have hrest : ¬Agree xs ys := fun ha => h ⟨rfl, ha⟩
        exact (ih hrest).imp (fun hb => .inr ⟨rfl, hb⟩) fun hb => .inr ⟨rfl, hb⟩
      · exact .inr (.inl hlt)

/-- Sequences with a tie broken by a second value: first the sequences decide, then the value. -/
def Beats (x y : List α × β) : Prop := Before x.1 y.1 ∨ Agree x.1 y.1 ∧ x.2 < y.2

instance (x y : List α × β) : Decidable (Beats x y) := inferInstanceAs (Decidable (_ ∨ _ ∧ _))

theorem beats_or_beats (h : x.2 ≠ y.2) : Beats x y ∨ Beats y x := by
  by_cases hagree : Agree x.1 y.1
  · exact (lt_or_gt_of_ne h).imp (fun hlt => .inr ⟨hagree, hlt⟩) fun hlt => .inr ⟨hagree.symm, hlt⟩
  · exact (before_or_before hagree).imp .inl .inl

end TieBreak
