import IriumConsensus.GuardedRun
import IriumConsensus.Nodes
import IriumConsensus.Registry

namespace IriumConsensus

open Checks Relation ProposerEligibilityRegistry

variable {C : Crypto} {E : NodeEnv} {A : Ambient}

/-- Enough registered members of a large enough committee voted to commit in the proof of `b`. -/
def genuineQuorum (E : NodeEnv) (g : ProposerEligibilityRegistry) (b : Block) (height : Nat) : Bool :=
  match ChainState.blockFinalityProof b with
  | none => false
  | some proof =>
    let committeeSize := g.eligibleCount E (height - 1)
    let voters := (proof.votes.filter fun v =>
      decide (v.voteType = 1) && g.isRegistered v.memberPubkey).map FinalityVoteV1.memberPubkey
    decide (minFinalityCommittee E ≤ committeeSize ∧
      ceilDiv (committeeSize * max proof.thresholdNum.toNat 1) (max proof.thresholdDen.toNat 1) ≤
        voters.toFinset.card)

theorem genuineQuorum_congr {g g' : ProposerEligibilityRegistry} (h : Same g g') (b : Block) (height : Nat) :
    genuineQuorum E g b height = genuineQuorum E g' b height := by
  unfold genuineQuorum
  simp only [h.eligibleCount, h.isRegistered]

/-- The newest block of a chain carries a genuine quorum for its parent. -/
def provesFinal (C : Crypto) (E : NodeEnv) : List Block → Bool
  | [] => false
  | b :: below =>
    decide (below ≠ []) && finalityCommitteeEnforced E below.length &&
      genuineQuorum E (replayRegistry C E (b :: below)) b below.length

/-- The greatest height that a block of the chain proves final. -/
def replayFinalized (C : Crypto) (E : NodeEnv) : List Block → Nat
  | [] => 0
  | b :: below =>
    if provesFinal C E (b :: below) then max (replayFinalized C E below) (below.length - 1)
    else replayFinalized C E below

theorem replayFinalized_le (chain : List Block) : replayFinalized C E chain ≤ chain.length - 2 := by
  induction chain with
  | nil => exact Nat.zero_le _
  | cons b below ih =>
    unfold replayFinalized
    rw [List.length_cons]
    split_ifs <;> omega

namespace ChainState

variable {s s' : ChainState} {b : Block} {undo : BlockUndo}

theorem blockFinalityHasGenuineQuorum_eq (hb : s.chain.getLast? = some b) (height : Nat) :
    blockFinalityHasGenuineQuorum E s height = genuineQuorum E s.proposerRegistry b height := by
  cases hproof : blockFinalityProof b with
  | none => simp [blockFinalityHasGenuineQuorum, genuineQuorum, hb, hproof]
  | some p => simp [blockFinalityHasGenuineQuorum, genuineQuorum, hb, hproof]

theorem acceptBlock_watermark (s : ChainState) (b : Block) (undo : BlockUndo) :
    (acceptBlock C E s b undo).chain = s.chain ++ [b] ∧
      (acceptBlock C E s b undo).proposerRegistry =
        s.proposerRegistry.registerAll (registeredKeys C E b s.height) s.height ∧
      (acceptBlock C E s b undo).finalizedHeight =
        if finalityCommitteeEnforced E s.height && (!forkChoiceHardeningActive E s.height ||
          genuineQuorum E (s.proposerRegistry.registerAll (registeredKeys C E b s.height) s.height) b s.height)
        then max s.finalizedHeight (s.height - 1) else s.finalizedHeight := by
  obtain ⟨mode, signal, hmode⟩ := updateAdaptiveMode_eq (E := E) (pushBlock C E s b undo) s.height
  obtain ⟨index, hindex⟩ := pruneCaches_eq C E
    (advanceFinality E (updateAdaptiveMode E (pushBlock C E s b undo) s.height) s.height)
  have hreg : (pushBlock C E s b undo).proposerRegistry =
      s.proposerRegistry.registerAll (registeredKeys C E b s.height) s.height :=
    PoawxState.applyBlock_registry _ _ _
  rw [acceptBlock, hindex, hmode]
  have hquorum := blockFinalityHasGenuineQuorum_eq (E := E) (b := b)
    (s := { pushBlock C E s b undo with adaptiveMode := mode, reorgSignal := signal })
    (by simp [pushBlock]) s.height
  unfold advanceFinality
  rw [hquorum, ← hreg]
  split_ifs <;> exact ⟨rfl, rfl, rfl⟩

structure Watermarked (C : Crypto) (E : NodeEnv) (s : ChainState) : Prop where
  registry : Same s.proposerRegistry (replayRegistry C E s.chain.reverse)
  final : s.finalizedHeight = replayFinalized C E s.chain.reverse

/-- If the tip proves its parent final, so does the block below it, or there is no height to lose. -/
def PopKeepsFinal (C : Crypto) (E : NodeEnv) (s : ChainState) : Prop :=
  provesFinal C E s.chain.reverse →
    s.chain.length ≤ 3 ∨ provesFinal C E s.chain.dropLast.reverse

theorem new_watermarked {params : ChainParams} (h : new C E A params = some s) : Watermarked C E s := by
  obtain ⟨undo, L, -, rfl⟩ := new_eq_some h
  have hchain : (indexGenesis C E (acceptGenesis C E ((blank E params).setLedger L) params.genesisBlock undo)
      params.genesisBlock).chain = [params.genesisBlock] := rfl
  refine ⟨?_, ?_⟩
  · rw [hchain]
    exact ⟨fun _ => rfl, replayRegistry_nonvoid (C := C) (E := E) [], replayRegistry_nonvoid _⟩
  · rw [hchain]
    rfl

theorem Watermarked.accept (hw : WellFormed C E s) (hs : Watermarked C E s)
    (hhard : ∀ height, forkChoiceHardeningActive E height) (L : Ledger) (b : Block) (undo : BlockUndo) :
    Watermarked C E (acceptBlock C E (s.setLedger L) b undo) := by
  obtain ⟨hchain, hreg, hfinal⟩ := acceptBlock_watermark (C := C) (E := E) (s.setLedger L) b undo
  have hrev : (acceptBlock C E (s.setLedger L) b undo).chain.reverse = b :: s.chain.reverse :=
    acceptBlock_chain_reverse _ _ _
  obtain ⟨hne, hlen⟩ := hw.reverse_chain
  have hsame := hs.registry.push hne b
  rw [hlen] at hsame
  refine ⟨?_, ?_⟩
  · rw [hrev, hreg]
    exact hsame
  · have hproves : provesFinal C E (b :: s.chain.reverse) = (finalityCommitteeEnforced E s.height &&
        genuineQuorum E (s.proposerRegistry.registerAll (registeredKeys C E b s.height) s.height) b s.height) := by
      rw [provesFinal, hlen, genuineQuorum_congr hsame]
      simp [hw.nonempty]
    rw [hrev, replayFinalized, hproves, hfinal]
    simp only [setLedger, hhard, Bool.not_true, Bool.false_or, hs.final, hlen]

theorem popBlock_registry (s : ChainState) (tip : Block) (undo : BlockUndo) :
    (popBlock C E s tip undo).proposerRegistry =
      (s.toPoawxState.revertBlock E tip (s.height - 1)).proposerRegistry := rfl

theorem Watermarked.pop {tip : Block} (hw : WellFormed C E s) (hs : Watermarked C E s)
    (hkeep : PopKeepsFinal C E s) (ht : tipUndo C E s = .ok (tip, undo)) :
    Watermarked C E (popBlock C E s tip undo) := by
  obtain ⟨hsplit, hne, hbelow⟩ := hw.tip_reverse ht
  refine ⟨?_, ?_⟩
  · have hreg := hs.registry
    rw [hsplit] at hreg
    obtain ⟨keys, hkeys, hrevert⟩ := PoawxState.revertBlock_registry (C := C) (E := E) s.toPoawxState tip (s.height - 1)
    rw [popBlock_registry, hrevert]
    rw [← hbelow] at hkeys ⊢
    exact hreg.pop hne hkeys
  · have hfinal := hs.final
    rw [hw.height] at hbelow
    have hle := replayFinalized_le (C := C) (E := E) s.chain.dropLast.reverse
    rw [hsplit, replayFinalized] at hfinal
    have hpop : (popBlock C E s tip undo).finalizedHeight = min s.finalizedHeight (s.chain.length - 1 - 1 - 1) := by
      simp only [popBlock, List.length_dropLast]
    change (popBlock C E s tip undo).finalizedHeight = replayFinalized C E s.chain.dropLast.reverse
    rw [hpop]
    split_ifs at hfinal with hproves
    · rw [← hsplit] at hproves
      rcases hkeep hproves with hshort | hprev
      · omega
      · cases hc : s.chain.dropLast.reverse with
        | nil => exact absurd hc hne
        | cons b rest =>
          rw [hc] at hprev hle hfinal hbelow
          rw [replayFinalized, if_pos hprev] at hfinal hle ⊢
          rw [List.length_cons] at hfinal hle hbelow
          omega
    · omega

inductive FinalStep (C : Crypto) (E : NodeEnv) : ChainState → ChainState → Prop
  | connect (s : ChainState) (A : Ambient) (b : Block) : FinalStep C E s (connectBlock C E A b s).2
  | disconnect (s : ChainState) (h : PopKeepsFinal C E s) : FinalStep C E s (disconnectTipBlock C E s).2
  | reindex (s : ChainState) (index : BlockIndex) (anchors : Option (List AnchorHeader)) (orphaned : List Block) :
      FinalStep C E s { s with toBlockIndex := index, anchors := anchors, reorgOrphanedBlocks := orphaned }

theorem finalStep_iff : FinalStep C E s s' ↔ GuardedStep C E (PopKeepsFinal C E) s s' := by
  constructor
  · intro h
    cases h with
    | connect A b => exact .connect s A b
    | disconnect h => exact .disconnect s h
    | reindex index anchors orphaned => exact .reindex s index anchors orphaned
  · intro h
    cases h with
    | connect A b => exact .connect s A b
    | disconnect h => exact .disconnect s h
    | reindex index anchors orphaned => exact .reindex s index anchors orphaned

theorem watermarked_kept (hhard : ∀ height, forkChoiceHardeningActive E height) :
    KeptBy C E (PopKeepsFinal C E) (Watermarked C E) where
  start _ _ _ hnew := new_watermarked hnew
  refused _ _ hs := ⟨hs.registry, hs.final⟩
  accepted _ _ b L undo hw hs _ := hs.accept hw hhard L b undo
  popped _ _ _ hw hs hkeep ht := hs.pop hw hkeep ht
  reindexed _ _ _ _ hs := ⟨hs.registry, hs.final⟩

/-- In every run that takes off a proving block only above another one, the watermark is the greatest
height that a block of the main chain proves final. -/
theorem finalizedHeight_eq_replay (hhard : ∀ height, forkChoiceHardeningActive E height)
    {params : ChainParams} {s₀ : ChainState} (hnew : new C E A params = some s₀)
    (hrun : ReflTransGen (FinalStep C E) s₀ s) : s.finalizedHeight = replayFinalized C E s.chain.reverse := by
  have hguarded : Guarded C E (PopKeepsFinal C E) s :=
    ⟨A, params, s₀, hnew, ReflTransGen.mono (fun _ _ => finalStep_iff.mp) _ _ hrun⟩
  exact ((watermarked_kept hhard).holds hguarded).2.final

theorem finalized_branch_watermark :
    ∃ s₀ s, new committeeCrypto committeeNode quietAmbient committeeParams = some s₀ ∧
      ReflTransGen (FinalStep committeeCrypto committeeNode) s₀ s ∧ s.finalizedHeight = 3 ∧
      replayFinalized committeeCrypto committeeNode s.chain.reverse = 3 := by
  obtain ⟨s, hs, hfinal⟩ :=
    exists_of_any (runOf committeeCrypto committeeNode quietAmbient committeeParams finalizedBranch.reverse)
    (fun s => s.finalizedHeight = 3) (by decide +kernel)
  obtain ⟨s₀, hnew, hguarded⟩ := runOf_guardedSteps hs
  have hrun := ReflTransGen.mono (fun _ _ => finalStep_iff.mpr) _ _ hguarded
  exact ⟨s₀, s, hnew, hrun, hfinal, (finalizedHeight_eq_replay (fun _ => rfl) hnew hrun).symm.trans hfinal⟩

theorem watermark_without_proof :
    (∀ height, forkChoiceHardeningActive committeeNode height) ∧
      ∃ s, Reachable committeeCrypto committeeNode s ∧ s.finalizedHeight = 2 ∧
        replayFinalized committeeCrypto committeeNode s.chain.reverse = 0 := by
  refine ⟨fun _ => rfl, ?_⟩
  obtain ⟨s, hs, hfinal, hreplay⟩ := exists_reachable_of_runOf (C := committeeCrypto) (E := committeeNode)
    quietAmbient committeeParams finalizedBranch.reverse
    (fun s => (disconnectTipBlock committeeCrypto committeeNode s).2.finalizedHeight = 2 ∧
      replayFinalized committeeCrypto committeeNode
        (disconnectTipBlock committeeCrypto committeeNode s).2.chain.reverse = 0) (by decide +kernel)
  exact ⟨_, hs.step (.disconnect s), hfinal, hreplay⟩

end ChainState

end IriumConsensus
