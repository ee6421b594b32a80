import Mathlib.Order.Defs.Unbundled
import IriumConsensus.Lib.Checks

namespace Stateful

/-- A computation on a state that keeps what it has done to the state when it fails. -/
def Run (σ ε α : Type) : Type := σ → Except ε α × σ

variable {σ τ ε α β : Type}

instance : Monad (Run σ ε) where
  pure a := fun s => (.ok a, s)
  bind x f := fun s => match x s with
    | (.ok a, s') => f a s'
    | (.error e, s') => (.error e, s')

def fail (e : ε) : Run σ ε α := fun s => (.error e, s)

def read : Run σ ε σ := fun s => (.ok s, s)

def update (f : σ → σ) : Run σ ε Unit := fun s => (.ok (), f s)

def lift (x : Except ε α) : Run σ ε α := fun s => (x, s)

def attempt (x : Run σ ε α) : Run σ ε (Except ε α) := fun s => (.ok (x s).1, (x s).2)

def within (get : σ → τ) (set : τ → σ → σ) (x : Run τ ε α) : Run σ ε α :=
  fun s => ((x (get s)).1, set (x (get s)).2 s)

variable {s s' : σ} {a : α} {b : β} {e : ε} {f : α → Run σ ε β} {x : Except ε α}

@[simp] theorem pure_apply (a : α) (s : σ) : (pure a : Run σ ε α) s = (.ok a, s) := rfl

@[simp] theorem fail_apply (e : ε) (s : σ) : (fail e : Run σ ε α) s = (.error e, s) := rfl

@[simp] theorem read_apply (s : σ) : (read : Run σ ε σ) s = (.ok s, s) := rfl

@[simp] theorem update_apply (f : σ → σ) (s : σ) : (update f : Run σ ε Unit) s = (.ok (), f s) := rfl

@[simp] theorem lift_apply (x : Except ε α) (s : σ) : (lift x : Run σ ε α) s = (x, s) := rfl

@[simp] theorem attempt_apply (x : Run σ ε α) (s : σ) : attempt x s = (.ok (x s).1, (x s).2) := rfl

@[simp] theorem within_apply (get : σ → τ) (set : τ → σ → σ) (x : Run τ ε α) (s : σ) :
    within get set x s = ((x (get s)).1, set (x (get s)).2 s) := rfl

theorem bind_apply (x : Run σ ε α) (f : α → Run σ ε β) (s : σ) :
    (x >>= f) s = match x s with
      | (.ok a, s') => f a s'
      | (.error e, s') => (.error e, s') := rfl

theorem bind_error_iff {x : Run σ ε α} {s'' : σ} :
    (x >>= f) s = (.error e, s'') ↔
      x s = (.error e, s'') ∨ ∃ a s', x s = (.ok a, s') ∧ f a s' = (.error e, s'') := by
  rw [bind_apply]
  rcases x s with ⟨_ | a, s'⟩ <;> simp [and_assoc]

@[simp] theorem read_bind {f : σ → Run σ ε β} : (read >>= f) s = f s s := rfl

@[simp] theorem update_bind {g : σ → σ} {f : Unit → Run σ ε β} : (update g >>= f) s = f () (g s) := rfl

theorem lift_bind_ok_iff :
    (lift x >>= f) s = (.ok b, s') ↔ ∃ a, x = .ok a ∧ f a s = (.ok b, s') := by
  cases x <;> simp [bind_apply]

theorem lift_bind_error_iff :
    (lift x >>= f) s = (.error e, s') ↔
      x = .error e ∧ s' = s ∨ ∃ a, x = .ok a ∧ f a s = (.error e, s') := by
  cases x <;> simp [bind_apply, eq_comm]

theorem lift_bind_cases {Q : Except ε β × σ → Prop} (herr : ∀ e, x = .error e → Q (.error e, s))
    (hok : ∀ a, x = .ok a → Q (f a s)) : Q ((lift x >>= f) s) := by
  cases x with
  | error e => exact herr e rfl
  | ok a => exact hok a rfl

section

variable {get : σ → τ} {set : τ → σ → σ} {x : Run τ ε α} {f : α → Run σ ε β}

theorem within_bind_ok_iff :
    (within get set x >>= f) s = (.ok b, s') ↔
      ∃ a t, x (get s) = (.ok a, t) ∧ f a (set t s) = (.ok b, s') := by
  rw [bind_apply, within_apply]
  rcases x (get s) with ⟨_ | a, t⟩ <;> simp [and_assoc]

theorem within_bind_error_iff :
    (within get set x >>= f) s = (.error e, s') ↔
      (∃ t, x (get s) = (.error e, t) ∧ s' = set t s) ∨
        ∃ a t, x (get s) = (.ok a, t) ∧ f a (set t s) = (.error e, s') := by
  rw [bind_apply, within_apply]
  rcases x (get s) with ⟨_ | a, t⟩ <;> simp [and_assoc, eq_comm]

end

/-- Whatever the outcome, the state afterwards is related to the state before. -/
def Steps (R : σ → σ → Prop) (x : Run σ ε α) : Prop := ∀ s, R s (x s).2

section

variable {R : σ → σ → Prop} [IsPreorder σ R] {x : Run σ ε α} {f : α → Run σ ε β}

theorem Steps.lift (x : Except ε α) : Steps R (Stateful.lift x : Run σ ε α) := fun s => refl_of R s

theorem Steps.fail (e : ε) : Steps R (Stateful.fail e : Run σ ε α) := fun s => refl_of R s

theorem Steps.pure (a : α) : Steps R (Pure.pure a : Run σ ε α) := fun s => refl_of R s

theorem Steps.read : Steps R (Stateful.read : Run σ ε σ) := fun s => refl_of R s

omit [IsPreorder σ R] in
theorem Steps.update {f : σ → σ} (h : ∀ s, R s (f s)) : Steps R (Stateful.update f : Run σ ε Unit) := h

omit [IsPreorder σ R] in
theorem Steps.attempt {x : Run σ ε α} (h : Steps R x) : Steps R (Stateful.attempt x) := fun s => h s

theorem rel_bind (hx : R s (x s).2) (hf : ∀ a s', x s = (.ok a, s') → R s' (f a s').2) : R s ((x >>= f) s).2 := by
  rw [bind_apply]
  rcases hxs : x s with ⟨e | a, s'⟩
  · rw [hxs] at hx
    exact hx
  · rw [hxs] at hx
    exact trans_of R hx (hf a s' hxs)

theorem Steps.bind (hx : Steps R x) (hf : ∀ a, Steps R (f a)) :
    Steps R (x >>= f) :=
  fun s => rel_bind (hx s) fun a s' _ => hf a s'

def Keeps (P : σ → Prop) (s s' : σ) : Prop := P s → P s'

instance (P : σ → Prop) : IsPreorder σ (Keeps P) where
  refl _ := id
  trans _ _ _ hst htu := htu ∘ hst

end

/-- From a state with `P`, `x` ends with `Q` of its value and the state, or fails in a state with `F`. -/
def Triple (P : σ → Prop) (x : Run σ ε α) (Q : α → σ → Prop) (F : σ → Prop) : Prop :=
  ∀ s, P s → match x s with
    | (.ok a, s') => Q a s'
    | (.error _, s') => F s'

section

variable {P F P' : σ → Prop} {Q Q' : α → σ → Prop} {R : β → σ → Prop} {x : Run σ ε α} {f : α → Run σ ε β}

theorem Triple.pure (h : ∀ s, P s → Q a s) : Triple P (Pure.pure a : Run σ ε α) Q F := h

theorem Triple.fail (h : ∀ s, P s → F s) (e : ε) : Triple P (Stateful.fail e : Run σ ε α) Q F := h

theorem Triple.read_bind {f : σ → Run σ ε β} (hf : ∀ t, P t → Triple (· = t) (f t) R F) :
    Triple P (read >>= f) R F := fun s hp => hf s hp s rfl

theorem Triple.update_bind {g : σ → σ} {f : Unit → Run σ ε β} {M : σ → Prop} (h : ∀ s, P s → M (g s))
    (hf : Triple M (f ()) R F) : Triple P (update g >>= f) R F := fun s hp => hf (g s) (h s hp)

theorem Triple.lift_bind {x : Except ε α} (h : ∀ s, P s → F s) (hf : ∀ a, x = .ok a → Triple P (f a) R F) :
    Triple P (lift x >>= f) R F := by
  intro s hp
  cases x with
  | error e => exact h s hp
  | ok a => exact hf a rfl s hp

theorem Triple.bind (hx : Triple P x Q F) (hf : ∀ a, Triple (Q a) (f a) R F) :
    Triple P (x >>= f) R F := by
  intro s hp
  have h := hx s hp
  rw [bind_apply]
  rcases hxs : x s with ⟨e | a, s'⟩
  · rw [hxs] at h
    exact h
  · rw [hxs] at h
    exact hf a s' h

theorem Triple.attempt_bind {f : Except ε α → Run σ ε β} {G : σ → Prop} (hx : Triple P x Q G)
    (hok : ∀ a, Triple (Q a) (f (.ok a)) R F) (herr : ∀ e, Triple G (f (.error e)) R F) :
    Triple P (attempt x >>= f) R F := by
  intro s hp
  have h := hx s hp
  rw [bind_apply, attempt_apply]
  rcases hxs : x s with ⟨e | a, s'⟩
  · rw [hxs] at h
    exact herr e s' h
  · rw [hxs] at h
    exact hok a s' h

theorem Triple.assume {p : Prop} (h : p → Triple P x Q F) : Triple (fun s => P s ∧ p) x Q F :=
  fun s hs => h hs.2 s hs.1

theorem Triple.mono {F' : σ → Prop} (h : Triple P x Q F) (hp : ∀ s, P' s → P s) (hq : ∀ a s, Q a s → Q' a s)
    (hf : ∀ s, F s → F' s) : Triple P' x Q' F' := by
  intro s hs
  have := h s (hp s hs)
  split at this
  next => exact hq _ _ this
  next => exact hf _ this

theorem Triple.weaken_pre (h : Triple P x Q F) (hp : ∀ s, P' s → P s) : Triple P' x Q F :=
  h.mono hp (fun _ _ hq => hq) fun _ hf => hf

theorem Triple.weaken_post (h : Triple P x Q F) (hq : ∀ a s, Q a s → Q' a s) :
    Triple P x Q' F :=
  h.mono (fun _ hp => hp) hq fun _ hf => hf

theorem Triple.ok (h : Triple P x Q F) (hp : P s) (hx : x s = (.ok a, s')) : Q a s' := by
  have := h s hp
  rwa [hx] at this

theorem Triple.error (h : Triple P x Q F) (hp : P s) (hx : x s = (.error e, s')) : F s' := by
  have := h s hp
  rwa [hx] at this

theorem Triple.final (h : Triple P x (fun _ => F) F) (hp : P s) : F (x s).2 := by
  have := h s hp
  split at this
  next heq => rw [heq]; exact this
  next heq => rw [heq]; exact this

theorem Steps.of_triple {R : σ → σ → Prop} (h : ∀ s, Triple (· = s) x (fun _ => R s) (R s)) : Steps R x :=
  fun s => (h s).final rfl

end

/-- From a state with `P` both runs leave the same state, again with `P`, and the same value, or both fail. -/
def Alike (P : σ → Prop) (x y : Run σ ε α) : Prop :=
  ∀ s, P s → P (x s).2 ∧ (y s).2 = (x s).2 ∧ (y s).1.toOption = (x s).1.toOption

section

variable {P : σ → Prop} {x y : Run σ ε α}

theorem Alike.of_eq (h : ∀ s, P s → y s = x s) (hp : ∀ s, P s → P (x s).2) : Alike P x y :=
  fun s hs => ⟨hp s hs, by rw [h s hs], by rw [h s hs]⟩

theorem Alike.pure (a : α) : Alike P (Pure.pure a : Run σ ε α) (Pure.pure a) := fun _ hs => ⟨hs, rfl, rfl⟩

theorem Alike.fail (e e' : ε) : Alike P (Stateful.fail e : Run σ ε α) (Stateful.fail e') := fun _ hs => ⟨hs, rfl, rfl⟩

theorem Alike.lift (z : Except ε α) : Alike P (Stateful.lift z : Run σ ε α) (Stateful.lift z) :=
  fun _ hs => ⟨hs, rfl, rfl⟩

theorem Alike.update {f g : σ → σ} (h : ∀ s, P s → P (f s) ∧ g s = f s) :
    Alike P (Stateful.update f : Run σ ε Unit) (Stateful.update g) :=
  fun s hs => ⟨(h s hs).1, (h s hs).2, rfl⟩

theorem Alike.read_bind {f g : σ → Run σ ε β} (h : ∀ s, P s → Alike P (f s) (g s)) :
    Alike P (read >>= f) (read >>= g) := fun s hs => h s hs s hs

theorem Alike.cases (h : Alike P x y) (hs : P s) : ∃ s', P s' ∧
    ((∃ a, x s = (.ok a, s') ∧ y s = (.ok a, s')) ∨ ∃ e e', x s = (.error e, s') ∧ y s = (.error e', s')) := by
  obtain ⟨hp, hstate, hvalue⟩ := h s hs
  refine ⟨_, hp, ?_⟩
  rcases hx : (x s).1 with e | a
  all_goals
    rw [hx] at hvalue
    rcases hy : (y s).1 with e' | a' <;> rw [hy] at hvalue
  · exact .inr ⟨e, e', Prod.ext hx rfl, Prod.ext hy hstate⟩
  · cases hvalue
  · cases hvalue
  · obtain rfl := Option.some.inj hvalue
    exact .inl ⟨a', Prod.ext hx rfl, Prod.ext hy hstate⟩

theorem Alike.bind {f g : α → Run σ ε β} (hx : Alike P x y) (hf : ∀ a, Alike P (f a) (g a)) :
    Alike P (x >>= f) (y >>= g) := by
  intro s hs
  obtain ⟨s', hp, ⟨a, hxs, hys⟩ | ⟨e, e', hxs, hys⟩⟩ := hx.cases hs
  all_goals rw [bind_apply, bind_apply, hxs, hys]
  · exact hf a s' hp
  · exact ⟨hp, rfl, rfl⟩

theorem Alike.attempt_bind {f g : Except ε α → Run σ ε β} (hx : Alike P x y)
    (hok : ∀ a, Alike P (f (.ok a)) (g (.ok a))) (herr : ∀ e e', Alike P (f (.error e)) (g (.error e'))) :
    Alike P (attempt x >>= f) (attempt y >>= g) := by
  intro s hs
  obtain ⟨s', hp, ⟨a, hxs, hys⟩ | ⟨e, e', hxs, hys⟩⟩ := hx.cases hs
  all_goals rw [bind_apply, bind_apply, attempt_apply, attempt_apply, hxs, hys]
  · exact hok a s' hp
  · exact herr e e' s' hp

end

end Stateful
