import Mathlib.Data.List.Basic

namespace Checks

variable {ε α β : Type} {p : Prop} {err : ε} {u : Unit} {x : Except ε α} {a : α} {xs : List α} {f : α → β}

def failIf (p : Prop) [Decidable p] (err : ε) : Except ε Unit :=
  if p then .error err else .ok ()

@[simp] theorem failIf_eq_ok [Decidable p] :
    failIf p err = .ok u ↔ ¬p := by
  unfold failIf
  split <;> simp_all

@[simp] theorem bind_eq_ok {f : α → Except ε β} {b : β} :
    (x >>= f) = .ok b ↔ ∃ a, x = .ok a ∧ f a = .ok b := by
  cases x with
  | error e => simp [bind, Except.bind]
  | ok a => simp [bind, Except.bind]

@[simp] theorem exists_unit {p : Unit → Prop} : (∃ u, p u) ↔ p () :=
  ⟨fun ⟨_, h⟩ => h, fun h => ⟨(), h⟩⟩

@[simp] theorem pure_eq_ok {b : α} : (pure a : Except ε α) = .ok b ↔ a = b := by
  simp [pure, Except.pure]

@[simp] theorem mapError_eq_ok {ε' : Type} {f : ε → ε'} :
    x.mapError f = .ok a ↔ x = .ok a := by
  cases x <;> simp [Except.mapError]

theorem toOption_eq_some : x.toOption = some a ↔ x = .ok a := by
  cases x <;> simp [Except.toOption]

theorem exists_of_any (x : Option α) (p : α → Prop) [DecidablePred p] (h : x.any (fun a => decide (p a))) :
    ∃ a, x = some a ∧ p a := by
  obtain ⟨a, ha, hp⟩ := (Option.any_eq_true _ _).mp h
  exact ⟨a, ha, of_decide_eq_true hp⟩

theorem refuse_eq_true [Decidable p] {b : Bool} :
    (if p then false else b) ↔ ¬p ∧ b := by
  by_cases h : p <;> simp [h]

theorem refuse_eq_some [Decidable p] {x : Option α} :
    (if p then none else x) = some a ↔ ¬p ∧ x = some a := by
  by_cases h : p <;> simp [h]

def orFail (x : Option α) (err : ε) : Except ε α :=
  match x with
  | some a => .ok a
  | none => .error err

@[simp] theorem orFail_eq_ok {x : Option α} :
    orFail x err = .ok a ↔ x = some a := by
  cases x <;> simp [orFail]

@[simp] theorem discard_eq_ok : discard x = .ok u ↔ ∃ a, x = .ok a := by
  cases x <;> simp [discard, Functor.discard, Functor.mapConst, Except.map]

def checkWhen (c : Bool) (check : Except ε Unit) : Except ε Unit := if c then check else .ok ()

@[simp] theorem checkWhen_eq_ok {c : Bool} {check : Except ε Unit} :
    checkWhen c check = .ok u ↔ (c → check = .ok ()) := by
  cases c <;> simp [checkWhen]

/-- Run a check on every element, stopping at the first failure. -/
def checkAll (check : α → Except ε Unit) : List α → Except ε Unit
  | [] => .ok ()
  | x :: xs => do
    check x
    checkAll check xs

@[simp] theorem checkAll_eq_ok {check : α → Except ε Unit} :
    checkAll check xs = .ok u ↔ ∀ x ∈ xs, check x = .ok () := by
  induction xs with
  | nil => simp [checkAll]
  | cons x xs ih => simp [checkAll, ih]

def checkEach (check : Nat → α → Except ε Unit) (xs : List α) : Except ε Unit :=
  checkAll (fun p => check p.2 p.1) xs.zipIdx

theorem checkEach_ok {check : Nat → α → Except ε Unit} (h : checkEach check xs = .ok u) {i : Nat} {x : α}
    (hx : xs[i]? = some x) : check i x = .ok () := by
  rw [checkEach, checkAll_eq_ok] at h
  exact h (x, i) (List.mem_zipIdx_iff_getElem?.mpr hx)

theorem filterMap_map_eq_self {g : β → Option α} :
    (xs.map f).filterMap g = xs ↔ ∀ x ∈ xs, g (f x) = some x := by
  induction xs with
  | nil => simp
  | cons x xs ih =>
    rw [List.map_cons, List.filterMap_cons, List.forall_mem_cons]
    cases hg : g (f x) with
    | none =>
      have hlen := List.length_filterMap_le g (xs.map f)
      rw [List.length_map] at hlen
      refine ⟨fun h => ?_, fun h => absurd h.1 (by simp)⟩
      dsimp only at h
      rw [h, List.length_cons] at hlen
      omega
    | some y =>
      dsimp only
      rw [List.cons.injEq, ih, Option.some.injEq]

theorem mapM_map_eq_ok {g : β → Except ε α} :
    (xs.map f).mapM g = .ok xs ↔ ∀ x ∈ xs, g (f x) = .ok x := by
  induction xs with
  | nil => simp [pure, Except.pure]
  | cons x xs ih =>
    rw [List.map_cons, List.mapM_cons, List.forall_mem_cons, ← ih]
    simp only [bind_eq_ok, pure_eq_ok, List.cons.injEq]
    constructor
    · rintro ⟨x', hx, xs', hxs, rfl, rfl⟩
      exact ⟨hx, hxs⟩
    · rintro ⟨hx, hxs⟩
      exact ⟨x, hx, xs, hxs, rfl, rfl⟩

end Checks
