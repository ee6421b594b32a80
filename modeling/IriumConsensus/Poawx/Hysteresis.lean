import IriumConsensus.Poawx.Adaptive

namespace IriumConsensus

/-- The mode, and whether the chain has been in defence since it was last normal. -/
structure Posture where
  mode : AdaptiveMode
  episode : Bool
  deriving DecidableEq, Repr

namespace Posture

def start (mode : AdaptiveMode) : Posture := ⟨mode, mode = .defense ∨ mode = .recovery⟩

def step (p : Posture) (s : NetworkSignals) : Posture :=
  let mode := assess s p.mode
  ⟨mode, mode = .defense ∨ (p.episode ∧ mode ≠ .normal)⟩

def Along (P : Posture → NetworkSignals → Prop) : Posture → List NetworkSignals → Prop
  | _, [] => True
  | p, s :: rest => P p s ∧ Along P (p.step s) rest

/-- Defence is left for recovery only, and an episode ends with stable signals only. -/
structure Hysteretic (p : Posture) (s : NetworkSignals) : Prop where
  leaves : p.mode = .defense → (p.step s).mode = .defense ∨ (p.step s).mode = .recovery
  enters : p.episode → (p.step s).mode = .normal →
    (p.mode = .recovery ∨ p.mode = .caution) ∧ s.isStable

/-- The signals are not between danger and stability where the code does not look at that. -/
structure Decisive (p : Posture) (s : NetworkSignals) : Prop where
  defense : p.mode = .defense → s.isDefense ∨ s.isStable
  caution : p.mode = .caution → p.episode →
    s.isDefense ∨ s.isLowParticipation ∨ s.isStable

structure Consistent (p : Posture) : Prop where
  defense : p.mode = .defense → p.episode
  normal : p.mode = .normal → p.episode = false

variable {p : Posture} {s : NetworkSignals}

theorem start_consistent (mode : AdaptiveMode) : (start mode).Consistent := by
  cases mode <;> exact ⟨by decide, by decide⟩

theorem step_consistent (p : Posture) (s : NetworkSignals) : (p.step s).Consistent := by
  constructor
  · intro hmode
    have hdef : assess s p.mode = .defense := hmode
    simp [Posture.step, hdef]
  · intro hmode
    have hnormal : assess s p.mode = .normal := hmode
    simp [Posture.step, hnormal]

theorem along_congr {P Q : Posture → NetworkSignals → Prop} (h : ∀ p s, p.Consistent → (P p s ↔ Q p s))
    (hp : p.Consistent) (signals : List NetworkSignals) : Along P p signals ↔ Along Q p signals := by
  induction signals generalizing p with
  | nil => exact Iff.rfl
  | cons s rest ih => exact and_congr (h p s hp) (ih (step_consistent p s))

theorem hysteretic_iff_decisive (hp : p.Consistent) : Hysteretic p s ↔ Decisive p s := by
  obtain ⟨mode, episode⟩ := p
  obtain ⟨hdefense, hnormal⟩ := hp
  cases mode with
  | normal =>
    obtain rfl : episode = false := hnormal rfl
    exact ⟨fun _ => ⟨by simp, by simp⟩, fun _ => ⟨by simp, by simp⟩⟩
  | caution =>
    by_cases hd : s.isDefense
    · exact ⟨fun _ => ⟨by simp, fun _ _ => .inl hd⟩, fun _ => ⟨by simp, by simp [step, assess, hd]⟩⟩
    by_cases hl : s.isLowParticipation
    · exact ⟨fun _ => ⟨by simp, fun _ _ => .inr (.inl hl)⟩, fun _ => ⟨by simp, by simp [step, assess, hd, hl]⟩⟩
    · -- neither danger nor low participation: the code goes to normal without a look at stability
      have hnext : assess s .caution = .normal := by simp [assess, hd, hl]
      constructor
      · intro h
        exact ⟨by simp, fun _ he => .inr (.inr (h.enters he hnext).2)⟩
      · intro h
        refine ⟨by simp, fun he _ => ⟨.inr rfl, ?_⟩⟩
        rcases h.caution rfl he with h | h | h
        · exact absurd h hd
        · exact absurd h hl
        · exact h
  | defense =>
    obtain rfl : episode := hdefense rfl
    by_cases hd : s.isDefense
    · exact ⟨fun _ => ⟨fun _ => .inl hd, by simp⟩,
        fun _ => ⟨fun _ => .inl (by simp [step, assess, hd]), by simp [step, assess, hd]⟩⟩
    by_cases hs : s.isStable
    · exact ⟨fun _ => ⟨fun _ => .inr hs, by simp⟩,
        fun _ => ⟨fun _ => .inr (by simp [step, assess, hd, hs]), by simp [step, assess, hd, hs]⟩⟩
    · -- signals in the gap: defence is left at once
      have hleft : assess s .defense ≠ .defense ∧ assess s .defense ≠ .recovery := by
        by_cases hl : s.isLowParticipation <;> simp [assess, hd, hs, hl]
      constructor
      · intro h
        rcases h.leaves rfl with h | h
        · exact absurd h hleft.1
        · exact absurd h hleft.2
      · intro h
        rcases h.defense rfl with h | h
        · exact absurd h hd
        · exact absurd h hs
  | recovery =>
    refine ⟨fun _ => ⟨by simp, by simp⟩, fun _ => ⟨by simp, fun _ hnext => ⟨.inl rfl, ?_⟩⟩⟩
    by_contra hs
    have hstays : assess s .recovery ≠ .normal := by
      by_cases hd : s.isDefense <;> by_cases hl : s.isLowParticipation <;>
        simp [assess, hd, hl, hs]
    exact hstays hnext

/-- The modes go through recovery, and an episode of defence ends in stable signals, exactly in the runs whose signals
are decisive. -/
theorem hysteresis_iff (mode : AdaptiveMode) (signals : List NetworkSignals) :
    Along Hysteretic (start mode) signals ↔ Along Decisive (start mode) signals :=
  along_congr (fun _ _ => hysteretic_iff_decisive) (start_consistent mode) signals

/-- The signal of a reorganisation decays to 1, which is neither dangerous nor stable: defence is left for normal or
for caution at once, and an episode that went through recovery ends from caution while the signal is still there. -/
theorem defense_left_for_normal :
    (start .normal).step ⟨3, 3, 0, 2, 0, true⟩ = ⟨.defense, true⟩ ∧
      assess ⟨3, 3, 0, 1, 0, true⟩ .defense = .normal ∧ assess ⟨2, 3, 0, 1, 0, true⟩ .defense = .caution ∧
      assess ⟨3, 3, 0, 0, 0, true⟩ .defense = .recovery ∧ assess ⟨2, 3, 0, 1, 0, true⟩ .recovery = .caution ∧
      assess ⟨3, 3, 0, 1, 0, true⟩ .caution = .normal ∧
      NetworkSignals.isStable ⟨3, 3, 0, 1, 0, true⟩ = false := by
  decide

end Posture

end IriumConsensus
