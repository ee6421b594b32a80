import Mathlib.Logic.Basic

namespace Journals

/-- A state and the records of the commands that changed it and have not been undone, newest first. -/
structure Journal (σ υ : Type) where
  state : σ
  log : List υ

/-- A command to be applied, or the last applied command taken back. -/
inductive Call (κ : Type) where
  | command (k : κ)
  | undo

section

variable {σ υ κ ε : Type} (apply : κ → σ → Except ε (υ × σ)) (undo : υ → σ → σ)

def step (j : Journal σ υ) : Call κ → Journal σ υ
  | .command k => match apply k j.state with
    | .ok (u, s) => ⟨s, u :: j.log⟩
    | .error _ => j
  | .undo => match j.log with
    | [] => j
    | u :: us => ⟨undo u j.state, us⟩

def run (j : Journal σ υ) (calls : List (Call κ)) : Journal σ υ := calls.foldl (step apply undo) j

/-- Every command of the run meets the condition in the state it is applied to. -/
def Meets (Cond : κ → σ → Prop) : Journal σ υ → List (Call κ) → Prop
  | _, [] => True
  | j, c :: cs => (∀ k, c = .command k → Cond k j.state) ∧ Meets Cond (step apply undo j c) cs

/-- The state and all states that the records lead back to satisfy the invariant. -/
def Backed (Inv : σ → Prop) : List υ → σ → Prop
  | [], s => Inv s
  | u :: us, s => Inv s ∧ Backed Inv us (undo u s)

variable {apply undo} {Inv : σ → Prop} {Cond : κ → σ → Prop} {j : Journal σ υ} {calls : List (Call κ)} {s : σ} {k : κ}
  {u : υ}

theorem Backed.inv {us : List υ} (h : Backed undo Inv us s) : Inv s := by
  cases us with
  | nil => exact h
  | cons u us => exact h.1

theorem step_ok (h : apply k j.state = .ok (u, s)) :
    step apply undo j (.command k) = ⟨s, u :: j.log⟩ := by
  simp only [step, h]

theorem step_error {e : ε} (h : apply k j.state = .error e) :
    step apply undo j (.command k) = j := by
  simp only [step, h]

theorem run_concat (c : Call κ) :
    run apply undo j (calls ++ [c]) = step apply undo (run apply undo j calls) c := by
  simp [run]

theorem step_undo (h : apply k j.state = .ok (u, s)) (hu : undo u s = j.state) :
    step apply undo (step apply undo j (.command k)) .undo = j := by
  obtain ⟨t, log⟩ := j
  rw [step_ok h]
  exact congrArg (Journal.mk · log) hu

theorem Backed.step (c : Call κ) (h : Backed undo Inv j.log j.state)
    (hc : ∀ k, c = .command k → Cond k j.state)
    (hstep : ∀ k s u s', Cond k s → Inv s → apply k s = .ok (u, s') → Inv s' ∧ undo u s' = s) :
    Backed undo Inv (step apply undo j c).log (step apply undo j c).state := by
  obtain ⟨s, log⟩ := j
  cases c with
  | command k =>
    cases ha : apply k s with
    | error e => rwa [step_error ha]
    | ok p =>
      obtain ⟨u, s'⟩ := p
      obtain ⟨hinv, hundo⟩ := hstep k s u s' (hc k rfl) h.inv ha
      rw [step_ok ha]
      exact ⟨hinv, by rw [hundo]; exact h⟩
  | undo =>
    cases log with
    | nil => exact h
    | cons u us => exact h.2

theorem meets_of_forall (h : ∀ k s, Cond k s) : Meets apply undo Cond j calls := by
  induction calls generalizing j with
  | nil => trivial
  | cons c cs ih => exact ⟨fun k _ => h k _, ih⟩

theorem run_inv (Inv : σ → Prop) (Cond : κ → σ → Prop) (h : Inv j.state) (hl : j.log = []) (hm : Meets apply undo Cond j calls)
    (hstep : ∀ k s u s', Cond k s → Inv s → apply k s = .ok (u, s') → Inv s' ∧ undo u s' = s) :
    Inv (run apply undo j calls).state := by
  have hb : Backed undo Inv j.log j.state := by rw [hl]; exact h
  clear h hl
  induction calls generalizing j with
  | nil => exact hb.inv
  | cons c cs ih => exact ih hm.2 (hb.step c hm.1 hstep)

end

end Journals
