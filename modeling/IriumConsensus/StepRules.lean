import IriumConsensus.ApplyRules
import IriumConsensus.Reachable

namespace IriumConsensus

variable {C : Crypto} {E : NodeEnv} {A : Ambient} {Offered : Nat → Block → Prop}

namespace ChainState

def Applied (C : Crypto) (E : NodeEnv) (s : ChainState) (b : Block) (undo : BlockUndo) (L : Ledger) : Prop :=
  BlockApplied C E s.params s.height b (blockReward E s.height) true (some (wrappingSub64 maxMoney s.issued))
    s.toLedger undo L

variable {s : ChainState} {b : Block} {undo : BlockUndo} {L : Ledger}

theorem applyTransactions_ok (h : applyTransactions C E s b s.toLedger = (.ok undo, L)) : Applied C E s b undo L :=
  (validateAndApplyTransactions_triple b _ _ _).ok rfl h

inductive Effect (C : Crypto) (E : NodeEnv) (Offered : Nat → Block → Prop) (s : ChainState) : ChainState → Prop
  | refused {L : Ledger} (hm : SomeMoved s.toLedger L) : Effect C E Offered s (s.setLedger L)
  | accepted {A : Ambient} {b : Block} {undo : BlockUndo} {L : Ledger} (hb : Offered s.height b)
      (hv : validateBlock C E A s b = .ok ()) (ha : Applied C E s b undo L)
      (hi : s.issued + undo.subsidyCreated ≤ u64Max) :
      Effect C E Offered s (acceptBlock C E (s.setLedger L) b undo)
  | popped {tip : Block} {undo : BlockUndo} (ht : tipUndo C E s = .ok (tip, undo)) :
      Effect C E Offered s (popBlock C E s tip undo)
  | reindexed (index : BlockIndex) (anchors : Option (List AnchorHeader)) (orphaned : List Block) :
      Effect C E Offered s { s with toBlockIndex := index, anchors := anchors, reorgOrphanedBlocks := orphaned }

theorem Effect.unchanged (s : ChainState) : Effect C E Offered s s :=
  .refused (RelaysMoved.refl s.toLedger).someMoved

theorem wrappingSub64_of_le {a b : Nat} (h : b ≤ a) (ha : a < 2 ^ 64) : wrappingSub64 a b = a - b := by
  unfold wrappingSub64
  rw [show a + 2 ^ 64 - b = (a - b) + 2 ^ 64 by omega, Nat.add_mod_right, Nat.mod_eq_of_lt (by omega)]

theorem Applied.issued_le (h : Applied C E s b undo L) (hs : s.issued ≤ maxMoney) :
    s.issued + undo.subsidyCreated ≤ maxMoney := by
  have hw := wrappingSub64_of_le hs (by decide)
  cases h with
  | mk _ _ _ _ _ _ _ hsub =>
    have h := hsub _ rfl
    rw [hw] at h
    simp only
    omega

theorem connectBlock_effect (hs : s.issued ≤ maxMoney) (A : Ambient) (b : Block) (hb : Offered s.height b) :
    Effect C E Offered s (connectBlock C E A b s).2 := by
  rcases hr : connectBlock C E A b s with ⟨e | u, s'⟩
  · rcases connectBlock_error hr with ⟨-, rfl⟩ | ⟨-, L, rfl, hL | ⟨undo, hL, hover⟩⟩
    · exact .unchanged s'
    · exact .refused ((validateAndApplyTransactions_triple b _ _ _).error rfl hL)
    · -- the limit on the subsidy leaves no room for an overflow
      have h := (applyTransactions_ok hL).issued_le hs
      have hlt : maxMoney < u64Max := by decide
      omega
  · obtain ⟨hv, undo, L, hL, hi, rfl⟩ := connectBlock_eq_ok.mp hr
    exact .accepted hb hv (applyTransactions_ok hL) hi

theorem disconnectTipBlock_effect (s : ChainState) : Effect C E Offered s (disconnectTipBlock C E s).2 := by
  rcases hr : disconnectTipBlock C E s with ⟨e | tip, s'⟩
  · rw [disconnectTipBlock_error hr]
    exact .unchanged s
  · obtain ⟨undo, ht, rfl⟩ := disconnectTipBlock_eq_ok.mp hr
    exact .popped ht

theorem Step.effect {s' : ChainState} (hs : s.issued ≤ maxMoney) (h : Step C E Offered s s') :
    Effect C E Offered s s' := by
  cases h with
  | connect A b hb => exact connectBlock_effect hs A b hb
  | disconnect => exact disconnectTipBlock_effect s
  | reindex index anchors orphaned => exact .reindexed index anchors orphaned

end ChainState

end IriumConsensus
