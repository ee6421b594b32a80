import IriumConsensus.WellFormed

namespace IriumConsensus

open Relation

variable {C : Crypto} {E : NodeEnv} {A : Ambient}

namespace ChainState

/-- The steps of a node that takes off its tip only in states with the property `Keep`. -/
inductive GuardedStep (C : Crypto) (E : NodeEnv) (Keep : ChainState → Prop) : ChainState → ChainState → Prop
  | connect (s : ChainState) (A : Ambient) (b : Block) : GuardedStep C E Keep s (connectBlock C E A b s).2
  | disconnect (s : ChainState) (h : Keep s) : GuardedStep C E Keep s (disconnectTipBlock C E s).2
  | reindex (s : ChainState) (index : BlockIndex) (anchors : Option (List AnchorHeader)) (orphaned : List Block) :
      GuardedStep C E Keep s { s with toBlockIndex := index, anchors := anchors, reorgOrphanedBlocks := orphaned }

/-- The states of a node from its start on, when it takes off its tip only where `Keep` allows it. -/
def Guarded (C : Crypto) (E : NodeEnv) (Keep : ChainState → Prop) (s : ChainState) : Prop :=
  ∃ A params s₀, new C E A params = some s₀ ∧ ReflTransGen (GuardedStep C E Keep) s₀ s

variable {Keep : ChainState → Prop} {s s' : ChainState}

theorem GuardedStep.step (h : GuardedStep C E Keep s s') : Step C E AnyBlock s s' := by
  cases h with
  | connect A b => exact .connect s A b trivial
  | disconnect h => exact .disconnect s
  | reindex index anchors orphaned => exact .reindex s index anchors orphaned

/-- What an invariant owes to each kind of step: `refused` stands for a block that is turned down after
its transactions have moved the ledger. -/
structure KeptBy (C : Crypto) (E : NodeEnv) (Keep P : ChainState → Prop) : Prop where
  start : ∀ A params s, new C E A params = some s → P s
  refused : ∀ s L, P s → P (s.setLedger L)
  accepted : ∀ s A b L undo, WellFormed C E s → P s → validateBlock C E A s b = .ok () →
    P (acceptBlock C E (s.setLedger L) b undo)
  popped : ∀ s tip undo, WellFormed C E s → P s → Keep s → tipUndo C E s = .ok (tip, undo) →
    P (popBlock C E s tip undo)
  reindexed : ∀ s index anchors orphaned, P s →
    P { s with toBlockIndex := index, anchors := anchors, reorgOrphanedBlocks := orphaned }

variable {P : ChainState → Prop}

theorem KeptBy.step (h : KeptBy C E Keep P) (hw : WellFormed C E s) (hs : P s) (hstep : GuardedStep C E Keep s s') :
    P s' := by
  cases hstep with
  | connect A b =>
    rcases hr : connectBlock C E A b s with ⟨e | u, t⟩
    · rcases connectBlock_error hr with ⟨-, rfl⟩ | ⟨-, L, rfl, -⟩
      · exact hs
      · exact h.refused s L hs
    · obtain ⟨hv, undo, L, -, -, rfl⟩ := connectBlock_eq_ok.mp hr
      exact h.accepted s A b L undo hw hs hv
  | disconnect hkeep =>
    rcases hr : disconnectTipBlock C E s with ⟨e | tip, t⟩
    · rw [disconnectTipBlock_error hr]
      exact hs
    · obtain ⟨undo, ht, rfl⟩ := disconnectTipBlock_eq_ok.mp hr
      exact h.popped s tip undo hw hs hkeep ht
  | reindex index anchors orphaned => exact h.reindexed s index anchors orphaned hs

theorem KeptBy.holds (h : KeptBy C E Keep P) (hs : Guarded C E Keep s) : WellFormed C E s ∧ P s := by
  obtain ⟨A, params, s₀, hnew, hrun⟩ := hs
  induction hrun with
  | refl => exact ⟨new_wellFormed hnew, h.start A params s₀ hnew⟩
  | tail _ hstep ih => exact ⟨(hstep.step.effect ih.1.issued).wellFormed ih.1, h.step ih.1 ih.2 hstep⟩

theorem runOf_guardedSteps {params : ChainParams} {bs : List Block} (h : runOf C E A params bs = some s) :
    ∃ s₀, new C E A params = some s₀ ∧ ReflTransGen (GuardedStep C E Keep) s₀ s := by
  induction bs generalizing s with
  | nil => exact ⟨s, h, .refl⟩
  | cons b below ih =>
    unfold runOf at h
    split at h
    next _ s' hs =>
      obtain ⟨t, ht, hc⟩ := Option.map_eq_some_iff.mp hs
      obtain ⟨s₀, hnew, hrun⟩ := ih ht
      have hstep : GuardedStep C E Keep t (connectBlock C E A b t).2 := .connect t A b
      rw [hc] at hstep
      exact ⟨s₀, hnew, Option.some.inj h ▸ hrun.tail hstep⟩
    next => simp at h

end ChainState

end IriumConsensus
