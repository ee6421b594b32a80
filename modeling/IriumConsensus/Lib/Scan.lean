import IriumConsensus.Lib.Stateful

namespace Stateful

open Checks

variable {σ ε ε' α β : Type}

/-- What looking over a computation finds first: a check that fails, a write that leaves a mark on
the state, or neither. -/
inductive Scan (α : Type) where
  | fails
  | marks
  | passes (a : α)
  deriving DecidableEq

instance : Monad Scan where
  pure a := .passes a
  bind x f := match x with
    | .fails => .fails
    | .marks => .marks
    | .passes a => f a

def Scan.refuse (c : Prop) [Decidable c] : Scan Unit := if c then .fails else .passes ()

def Scan.check : Except ε α → Scan α
  | .ok a => .passes a
  | .error _ => .fails

@[simp] theorem Scan.passes_bind (a : α) (g : α → Scan β) : (Scan.passes a >>= g) = g a := rfl

@[simp] theorem Scan.fails_bind (g : α → Scan β) : (Scan.fails >>= g) = .fails := rfl

@[simp] theorem Scan.marks_bind (g : α → Scan β) : (Scan.marks >>= g) = .marks := rfl

/-- A scan on the state `s` tells how the computation ends there: the state is as it was, unless
there is a mark on it. -/
def Foretells (Mark : σ → Prop) (s : σ) (scan : Scan α) (x : Run σ ε α) : Prop :=
  match scan with
  | .fails => ∃ e, x s = (.error e, s)
  | .marks => Mark (x s).2
  | .passes a => x s = (.ok a, s)

section

variable {M : σ → Prop} {s : σ} {x : Run σ ε α} {f : α → Run σ ε β} {g : α → Scan β} {y : Except ε α} {c : Prop}
  {scan : Scan α} {R : σ → σ → Prop}

theorem Foretells.pure (a : α) : Foretells M s (Pure.pure a) (Pure.pure a : Run σ ε α) := rfl

theorem Foretells.fail (e : ε) : Foretells M s .fails (Stateful.fail e : Run σ ε α) := ⟨e, rfl⟩

theorem Foretells.read_bind {f : σ → Run σ ε β} {scan : Scan β} (h : Foretells M s scan (f s)) :
    Foretells M s scan (read >>= f) := h

theorem Foretells.check_bind (h : ∀ a, y = .ok a → Foretells M s (g a) (f a)) :
    Foretells M s (Scan.check y >>= g) (lift y >>= f) := by
  cases y with
  | error e => exact ⟨e, rfl⟩
  | ok a => exact h a rfl

theorem Foretells.mapError_bind {y : Except ε' α} {t : ε' → ε}
    (h : ∀ a, y = .ok a → Foretells M s (g a) (f a)) :
    Foretells M s (Scan.check y >>= g) (lift (y.mapError t) >>= f) := by
  cases y with
  | error e => exact ⟨t e, rfl⟩
  | ok a => exact h a rfl

theorem Foretells.refuse_bind [Decidable c] {e : ε} {f : Unit → Run σ ε β} {g : Unit → Scan β}
    (h : ¬c → Foretells M s (g ()) (f ())) :
    Foretells M s (Scan.refuse c >>= g) (lift (failIf c e) >>= f) := by
  by_cases hc : c
  · simp only [Scan.refuse, failIf, hc, ↓reduceIte, Scan.fails_bind]
    exact ⟨e, rfl⟩
  · simp only [Scan.refuse, failIf, hc, ↓reduceIte, Scan.passes_bind]
    exact h hc

/-- After a mark nothing more is foretold, but the mark stays. -/
theorem Foretells.bind (hM : ∀ s t, R s t → M s → M t) (hx : Foretells M s scan x)
    (hf : ∀ a, Foretells M s (g a) (f a)) (hk : ∀ a, Steps R (f a)) :
    Foretells M s (scan >>= g) (x >>= f) := by
  cases scan with
  | fails =>
    obtain ⟨e, he⟩ := hx
    exact ⟨e, by rw [bind_apply, he]⟩
  | passes a =>
    have ha := hf a
    have heq : (x >>= f) s = f a s := by rw [bind_apply, show x s = (.ok a, s) from hx]
    unfold Foretells at ha ⊢
    rw [heq]
    exact ha
  | marks =>
    have hm : M (x s).2 := hx
    show M ((x >>= f) s).2
    rw [bind_apply]
    rcases hxs : x s with ⟨e | a, s'⟩
    · rw [hxs] at hm
      exact hm
    · rw [hxs] at hm
      exact hM _ _ (hk a s') hm

/-- If the computation fails, then with a mark on the state or leaving it as it was, as the scan tells. -/
def FailureForetold (Mark : σ → Prop) (s : σ) (scan : Scan α) (x : Run σ ε β) : Prop :=
  ∀ e s', x s = (.error e, s') → scan = .marks ∧ Mark s' ∨ scan ≠ .marks ∧ s' = s

variable {γ : Type} {h : α → Scan γ}

theorem FailureForetold.check_bind (hf : ∀ a, y = .ok a → FailureForetold M s (h a) (f a)) :
    FailureForetold M s (Scan.check y >>= h) (lift y >>= f) := by
  intro e s' he
  cases y with
  | error e' => exact .inr ⟨by simp [Scan.check], (congrArg Prod.snd he).symm⟩
  | ok a => exact hf a rfl e s' he

theorem FailureForetold.refuse_bind [Decidable c] {e' : ε} {f : Unit → Run σ ε β} {h : Unit → Scan γ}
    (hf : FailureForetold M s (h ()) (f ())) :
    FailureForetold M s (Scan.refuse c >>= h) (lift (failIf c e') >>= f) := by
  intro e s' he
  by_cases hc : c
  · simp only [failIf, hc, ↓reduceIte] at he
    exact .inr ⟨by simp [Scan.refuse, hc], (congrArg Prod.snd he).symm⟩
  · simp only [failIf, hc, ↓reduceIte] at he
    simpa [Scan.refuse, hc] using hf e s' he

theorem FailureForetold.bind (hM : ∀ s t, R s t → M s → M t) (hx : Foretells M s scan x)
    (hf : ∀ a, FailureForetold M s (h a) (f a)) (hk : ∀ a, Steps R (f a)) :
    FailureForetold M s (scan >>= h) (x >>= f) := by
  intro e s' he
  cases scan with
  | fails =>
    obtain ⟨e', hx⟩ := hx
    rw [bind_apply, hx] at he
    exact .inr ⟨by simp, (congrArg Prod.snd he).symm⟩
  | passes a =>
    rw [bind_apply, show x s = (.ok a, s) from hx] at he
    exact hf a e s' he
  | marks =>
    refine .inl ⟨rfl, ?_⟩
    have hm : M (x s).2 := hx
    rcases bind_error_iff.mp he with he | ⟨a, t, ht, he⟩
    · rwa [he] at hm
    · rw [ht] at hm
      have hs := hk a t
      rw [he] at hs
      exact hM _ _ hs hm

theorem FailureForetold.last {y : Run σ ε β} {c : γ} (hy : ∀ e s', y s = (.error e, s') → s' = s) :
    FailureForetold M s (.passes c) y := fun e s' he => .inr ⟨by simp, hy e s' he⟩

end

end Stateful
