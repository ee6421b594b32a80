import Mathlib.Data.Finset.Card

namespace Descent

variable {α : Type} {Next : α → α → Prop} {x : α}

/-- Every walk along `Next` from `x` is over after `n` looks at where it is. -/
def EndsWithin (Next : α → α → Prop) : Nat → α → Prop
  | 0, _ => False
  | n + 1, x => ∀ y, Next x y → EndsWithin Next n y

theorem EndsWithin.mono {n m : Nat} (h : EndsWithin Next n x) (hle : n ≤ m) : EndsWithin Next m x := by
  induction n generalizing m x with
  | zero => exact h.elim
  | succ n ih =>
    obtain ⟨m, rfl⟩ := Nat.exists_eq_add_of_le' (Nat.one_le_of_lt hle)
    exact fun y hy => ih (h y hy) (Nat.le_of_succ_le_succ hle)

theorem EndsWithin.of_le {Next' : α → α → Prop} {n : Nat} (h : EndsWithin Next' n x) (hle : Next ≤ Next') :
    EndsWithin Next n x := by
  induction n generalizing x with
  | zero => exact h
  | succ n ih => exact fun y hy => ih (h y (hle x y hy))

section

variable {Rank : α → Nat → Prop} {S : Finset α} (hrank : ∀ k d d', Rank k d → Rank k d' → d = d')
  (hstep : ∀ x y, Next x y → ∃ d, Rank x d ∧ (∃ k ∈ S, Rank k d) ∧ ∀ d', Rank y d' → d' < d)

include hrank hstep

open Classical in
theorem endsWithin_of_rank {n d : Nat} (hx : Rank x d) (hn : (S.filter fun k => ∃ d' ≤ d, Rank k d').card ≤ n) :
    EndsWithin Next (n + 1) x := by
  induction n generalizing x d with
  | zero =>
    intro y hy
    obtain ⟨d₁, hx₁, ⟨k, hk, hd⟩, -⟩ := hstep x y hy
    obtain rfl := hrank x d d₁ hx hx₁
    have hmem : k ∈ S.filter fun k => ∃ d' ≤ d, Rank k d' := Finset.mem_filter.mpr ⟨hk, d, le_rfl, hd⟩
    exact absurd (Finset.card_pos.mpr ⟨k, hmem⟩) (by omega)
  | succ n ih =>
    intro y hy
    obtain ⟨d₁, hx₁, ⟨k, hk, hd⟩, hless⟩ := hstep x y hy
    obtain rfl := hrank x d d₁ hx hx₁
    by_cases hend : ∃ z, Next y z
    · obtain ⟨z, hz⟩ := hend
      obtain ⟨d', hy', -⟩ := hstep y z hz
      have hlt := hless d' hy'
      -- `k` has the rank of `x` and is no longer counted
      have hsub : S.filter (fun k => ∃ e ≤ d', Rank k e) ⊂ S.filter fun k => ∃ e ≤ d, Rank k e := by
        refine (Finset.ssubset_iff_of_subset fun j hj => ?_).mpr
          ⟨k, Finset.mem_filter.mpr ⟨hk, d, le_rfl, hd⟩, fun hj => ?_⟩
        · obtain ⟨hjS, e, he, hje⟩ := Finset.mem_filter.mp hj
          exact Finset.mem_filter.mpr ⟨hjS, e, he.trans hlt.le, hje⟩
        · obtain ⟨-, e, he, hke⟩ := Finset.mem_filter.mp hj
          have heq := hrank k d e hd hke
          omega
      have hcard := Finset.card_lt_card hsub
      exact ih hy' (by omega)
    · exact fun z hz => absurd ⟨z, hz⟩ hend

/-- A walk that goes down in rank and at each place meets an element of `S` with the rank of the place. -/
theorem endsWithin_card (x : α) : EndsWithin Next (S.card + 1) x := by
  classical
  intro y hy
  obtain ⟨d, hx, -⟩ := hstep x y hy
  exact endsWithin_of_rank hrank hstep hx (Finset.card_filter_le _ _) y hy

end

end Descent
