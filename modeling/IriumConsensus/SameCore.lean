import IriumConsensus.Connect
import IriumConsensus.DominanceCounters

namespace IriumConsensus

open Checks Stateful PersistentDominance

variable {C : Crypto} {E : NodeEnv} {A : Ambient}

namespace PoawxState

/-- What the block rules read of two states is the same. -/
structure SameRules (p q : PoawxState) : Prop where
  dominance : SameCounters p.dominance q.dominance
  registry : p.proposerRegistry = q.proposerRegistry
  queue : p.proposerRegQueue = q.proposerRegQueue
  penalty : p.penalty = q.penalty

variable {p q : PoawxState}

theorem SameRules.refl (p : PoawxState) : SameRules p p := ⟨.refl _, rfl, rfl, rfl⟩

theorem SameRules.symm (h : SameRules p q) : SameRules q p :=
  ⟨h.dominance.symm, h.registry.symm, h.queue.symm, h.penalty.symm⟩

theorem SameRules.trans {r : PoawxState} (h : SameRules p q) (h' : SameRules q r) : SameRules p r :=
  ⟨h.dominance.trans h'.dominance, h.registry.trans h'.registry, h.queue.trans h'.queue, h.penalty.trans h'.penalty⟩

theorem sameCounters_foldl {α : Type} {f : PersistentDominance → α → PersistentDominance}
    (hf : ∀ d d' x, SameCounters d d' → SameCounters (f d x) (f d' x)) (xs : List α) {d d' : PersistentDominance}
    (h : SameCounters d d') : SameCounters (xs.foldl f d) (xs.foldl f d') := by
  induction xs generalizing d d' with
  | nil => exact h
  | cons x xs ih => exact ih (hf d d' x h)

theorem SameRules.applyBlock (h : SameRules p q) (b : Block) (height : Nat) :
    SameRules (applyBlock C E p b height) (PoawxState.applyBlock C E q b height) := by
  obtain ⟨hdom, hpen, hqueue, hreg⟩ := applyBlock_parts C E p b height
  obtain ⟨hdom', hpen', hqueue', hreg'⟩ := applyBlock_parts C E q b height
  refine ⟨?_, ?_, ?_, ?_⟩
  · rw [hdom, hdom', applyBlockDominance, applyBlockDominance]
    split
    next => exact h.dominance
    next => exact sameCounters_foldl (fun _ _ e hd => hd.applyEvent e.1 e.2.1 e.2.2 height) _ h.dominance
  · rw [hreg, hreg']
    unfold applyBlockProposerRegistrations applyBlockProposerRegistry
    cases proposerRegSectionFromBlock b <;> split_ifs <;> simp only [h.registry]
  · rw [hqueue, hqueue']
    unfold applyBlockProposerRegistrations
    cases proposerRegSectionFromBlock b <;> split_ifs <;> simp only [h.queue]
  · rw [hpen, hpen', applyBlockFraudSlashing, applyBlockFraudSlashing]
    split_ifs <;> simp only [h.penalty]

theorem SameRules.revertBlock (h : SameRules p q) (b : Block) (height : Nat) :
    SameRules (revertBlock E p b height) (PoawxState.revertBlock E q b height) := by
  obtain ⟨hdom, hpen, hqueue, hreg⟩ := revertBlock_parts E p b height
  obtain ⟨hdom', hpen', hqueue', hreg'⟩ := revertBlock_parts E q b height
  refine ⟨?_, ?_, ?_, ?_⟩
  · rw [hdom, hdom', revertBlockDominance, revertBlockDominance]
    split
    next => exact h.dominance
    next => exact sameCounters_foldl (fun _ _ e hd => hd.revertEvent e.1 e.2.1 e.2.2 height) _ h.dominance
  · rw [hreg, hreg']
    unfold revertBlockProposerRegistrations revertBlockProposerRegistry
    cases proposerRegSectionFromBlock b <;> split_ifs <;> simp only [h.registry]
  · rw [hqueue, hqueue']
    unfold revertBlockProposerRegistrations
    cases proposerRegSectionFromBlock b <;> split_ifs <;> simp only [h.queue]
  · rw [hpen, hpen', revertBlockFraudSlashing, revertBlockFraudSlashing]
    split_ifs <;> simp only [h.penalty]

end PoawxState

open PoawxState

namespace ChainState

/-- States that differ at most in caches, checkpoints and signals that no block rule reads. -/
structure SameCore (s t : ChainState) : Prop where
  ledger : s.toLedger = t.toLedger
  poawx : SameRules s.toPoawxState t.toPoawxState
  params : s.params = t.params
  height : s.height = t.height
  chain : s.chain = t.chain
  totalWork : s.totalWork = t.totalWork
  issued : s.issued = t.issued
  bestTip : s.bestTip = t.bestTip
  undoLogs : s.undoLogs = t.undoLogs
  finalizedHeight : s.finalizedHeight = t.finalizedHeight

variable {s t : ChainState} {b : Block}

theorem SameCore.refl (s : ChainState) : SameCore s s := ⟨rfl, .refl _, rfl, rfl, rfl, rfl, rfl, rfl, rfl, rfl⟩

theorem SameCore.symm (h : SameCore s t) : SameCore t s :=
  ⟨h.ledger.symm, h.poawx.symm, h.params.symm, h.height.symm, h.chain.symm, h.totalWork.symm, h.issued.symm,
    h.bestTip.symm, h.undoLogs.symm, h.finalizedHeight.symm⟩

theorem SameCore.trans {u : ChainState} (h : SameCore s t) (h' : SameCore t u) : SameCore s u :=
  ⟨h.ledger.trans h'.ledger, h.poawx.trans h'.poawx, h.params.trans h'.params, h.height.trans h'.height,
    h.chain.trans h'.chain, h.totalWork.trans h'.totalWork, h.issued.trans h'.issued, h.bestTip.trans h'.bestTip,
    h.undoLogs.trans h'.undoLogs, h.finalizedHeight.trans h'.finalizedHeight⟩

theorem SameCore.reindex (s : ChainState) (index : BlockIndex) (anchors : Option (List AnchorHeader))
    (orphaned : List Block) :
    SameCore { s with toBlockIndex := index, anchors := anchors, reorgOrphanedBlocks := orphaned } s :=
  ⟨rfl, .refl _, rfl, rfl, rfl, rfl, rfl, rfl, rfl, rfl⟩

theorem SameCore.exists_eq (h : SameCore s t) : ∃ dominance mode signal index anchors orphaned,
    SameCounters dominance t.dominance ∧
      s = { t with
        dominance := dominance, adaptiveMode := mode, reorgSignal := signal, toBlockIndex := index,
        anchors := anchors, reorgOrphanedBlocks := orphaned } := by
  obtain ⟨hl, ⟨hd, hr, hq, hp⟩, hpar, hh, hc, hw, hi, hb, hu, hf⟩ := h
  refine ⟨s.dominance, s.adaptiveMode, s.reorgSignal, s.toBlockIndex, s.anchors, s.reorgOrphanedBlocks, hd, ?_⟩
  rw [← hl, ← hr, ← hq, ← hp, ← hpar, ← hh, ← hc, ← hw, ← hi, ← hb, ← hu, ← hf]

theorem checkFraudProofs_congr (h : s.penalty.offences = t.penalty.offences) (height : Nat) (proofs : List FraudProofV1)
    (seen : List Offence) : checkFraudProofs C E s height proofs seen = checkFraudProofs C E t height proofs seen := by
  have hrecorded : s.penalty.isOffenceRecorded = t.penalty.isOffenceRecorded := by
    funext o
    simp only [PersistentPenalty.isOffenceRecorded, h]
  induction proofs generalizing seen with
  | nil => rfl
  | cons fp rest ih => simp only [checkFraudProofs, hrecorded, ih]

theorem checkExtFraud_congr (h : s.penalty.offences = t.penalty.offences) (height : Nat)
    (exts : List (PoawxBlockReceipt × Phase20ReceiptExt)) (seen : List Offence) :
    checkExtFraud C E s height exts seen = checkExtFraud C E t height exts seen := by
  induction exts generalizing seen with
  | nil => rfl
  | cons p rest ih => simp only [checkExtFraud, checkFraudProofs_congr h, ih]

theorem checkAnnounces_congr (h : s.chain = t.chain) (height : Nat) (announces : List ProposerRegistrationV1)
    (seen : List PubKey33) : checkAnnounces C E s height announces seen = checkAnnounces C E t height announces seen := by
  induction announces generalizing seen with
  | nil => rfl
  | cons a rest ih => simp only [checkAnnounces, h, ih]

theorem validateBlockHeader_congr (hc : s.chain = t.chain) (hp : s.params = t.params) (b : Block) (height : Nat)
    (now : Int) : validateBlockHeader C E s b height now = validateBlockHeader C E t b height now := by
  have htarget : targetForHeight E s height = targetForHeight E t height := by
    simp only [targetForHeight, legacyTargetForHeight, legacyRetarget, lwmaTargetForHeightWith, hc, hp]
  have hparent : checkParent C E s b height = checkParent C E t b height := by rw [checkParent, hc, checkParent]
  have htime : checkTime s b height now = checkTime t b height now := by
    have hmedian : s.medianTimePast = t.medianTimePast := by rw [medianTimePast, hc, medianTimePast]
    rw [checkTime, hmedian, hc, checkTime]
  have hpow : ∀ target err, checkPow C E s b height target err = checkPow C E t b height target err := by
    intro target err
    have haux : s.usesAuxpow b height = t.usesAuxpow b height := by rw [usesAuxpow, usesAuxpow, hp]
    rw [checkPow, haux, checkPow]
  rw [validateBlockHeader, hparent, htime, htarget, hpow, validateBlockHeader]

/-- All that the rules on a block look at. Of the penalties they read the offences only. -/
structure SameChecks (s t : ChainState) : Prop where
  dominance : SameCounters s.dominance t.dominance
  registry : s.proposerRegistry = t.proposerRegistry
  queue : s.proposerRegQueue = t.proposerRegQueue
  offences : s.penalty.offences = t.penalty.offences
  params : s.params = t.params
  height : s.height = t.height
  chain : s.chain = t.chain

theorem SameCore.sameChecks (h : SameCore s t) : SameChecks s t :=
  ⟨h.poawx.dominance, h.poawx.registry, h.poawx.queue, congrArg PersistentPenalty.offences h.poawx.penalty, h.params,
    h.height, h.chain⟩

theorem SameChecks.validateBlock (h : SameChecks s t) (b : Block) :
    validateBlock C E A s b = ChainState.validateBlock C E A t b := by
  have hfraud : ∀ height, validateBlockFraudProofs C E s b height = validateBlockFraudProofs C E t b height :=
    fun height => checkExtFraud_congr h.offences height _ _
  have hann : ∀ height, checkAnnounces C E s height = checkAnnounces C E t height := by
    intro height
    funext announces seen
    exact checkAnnounces_congr h.chain height announces seen
  have hweights : ∀ height, validateBlockDominanceWeights s b height = validateBlockDominanceWeights t b height := by
    intro height
    have hext : checkExtWeights s height = checkExtWeights t height := by
      funext p
      simp only [checkExtWeights, h.dominance.weight]
    rw [validateBlockDominanceWeights, hext]
    rfl
  have hcandidates : ∀ height,
      validateBlockCandidateSets C E s A b height = validateBlockCandidateSets C E t A b height := by
    intro height
    have hcand : ∀ cs, checkCandidate C E s height cs = checkCandidate C E t height cs := by
      intro cs
      funext cand
      simp only [checkCandidate, h.dominance.weight]
    have hext : ∀ seed, checkExtCandidates C E s A height seed = checkExtCandidates C E t A height seed := by
      intro seed
      funext p
      simp only [checkExtCandidates, hcand]
    simp only [validateBlockCandidateSets, hext, h.chain]
  have hregs : ∀ height,
      validateBlockProposerRegistrations C E s b height = validateBlockProposerRegistrations C E t b height := by
    intro height
    simp only [validateBlockProposerRegistrations, checkActivations, h.queue, hann]
  have hproposer : ∀ height previous,
      validateBlockProposer C E s b height previous = validateBlockProposer C E t b height previous := by
    intro height previous
    have hreceipt : checkReceiptProposer C E s b height = checkReceiptProposer C E t b height := by
      funext seed parentTime r
      simp only [checkReceiptProposer, h.registry]
    simp only [validateBlockProposer, hreceipt]
  have hheader := fun height => validateBlockHeader_congr (C := C) (E := E) h.chain h.params b height A.now
  simp only [ChainState.validateBlock, validatePoawxBlock, hheader, hweights, hcandidates, hfraud, hproposer, hregs,
    h.height, h.chain]

theorem SameCore.applyTransactions (h : SameCore s t) (b : Block) :
    applyTransactions C E s b = ChainState.applyTransactions C E t b := by
  simp only [ChainState.applyTransactions, h.params, h.height, h.issued]

theorem SameCore.setLedger (h : SameCore s t) (L : Ledger) : SameCore (s.setLedger L) (t.setLedger L) :=
  ⟨rfl, h.poawx, h.params, h.height, h.chain, h.totalWork, h.issued, h.bestTip, h.undoLogs, h.finalizedHeight⟩

theorem SameCore.pushBlock (h : SameCore s t) (b : Block) (undo : BlockUndo) :
    SameCore (pushBlock C E s b undo) (ChainState.pushBlock C E t b undo) where
  ledger := h.ledger
  poawx := by
    have hp := h.poawx.applyBlock (C := C) (E := E) b t.height
    rw [← h.height] at hp
    simp only [ChainState.pushBlock]
    rwa [h.height] at hp ⊢
  params := h.params
  height := by simp only [ChainState.pushBlock, h.height]
  chain := by simp only [ChainState.pushBlock, h.chain]
  totalWork := by simp only [ChainState.pushBlock, h.totalWork]
  issued := by simp only [ChainState.pushBlock, h.issued]
  bestTip := by simp only [ChainState.pushBlock, blockHash, h.height]
  undoLogs := by simp only [ChainState.pushBlock, blockHash, h.height, h.undoLogs]
  finalizedHeight := h.finalizedHeight

theorem SameCore.advanceFinality (h : SameCore s t) (height : Nat) :
    SameCore (advanceFinality E s height) (ChainState.advanceFinality E t height) := by
  have hquorum : blockFinalityHasGenuineQuorum E s height = blockFinalityHasGenuineQuorum E t height := by
    simp only [blockFinalityHasGenuineQuorum, h.chain, h.poawx.registry]
  unfold ChainState.advanceFinality
  rw [hquorum, h.finalizedHeight]
  split
  next =>
    exact ⟨h.ledger, h.poawx, h.params, h.height, h.chain, h.totalWork, h.issued, h.bestTip, h.undoLogs, rfl⟩
  next => exact h

theorem acceptBlock_sameCore (s : ChainState) (b : Block) (undo : BlockUndo) :
    SameCore (acceptBlock C E s b undo) (advanceFinality E (pushBlock C E s b undo) s.height) := by
  obtain ⟨mode, signal, hmode⟩ := updateAdaptiveMode_eq (E := E) (pushBlock C E s b undo) s.height
  obtain ⟨index, hindex⟩ := pruneCaches_eq C E
    (ChainState.advanceFinality E (updateAdaptiveMode E (pushBlock C E s b undo) s.height) s.height)
  have hsignals : SameCore { pushBlock C E s b undo with adaptiveMode := mode, reorgSignal := signal }
      (pushBlock C E s b undo) := ⟨rfl, ⟨.refl _, rfl, rfl, rfl⟩, rfl, rfl, rfl, rfl, rfl, rfl, rfl, rfl⟩
  rw [acceptBlock, hindex, hmode]
  exact (SameCore.reindex _ index _ _).trans (hsignals.advanceFinality s.height)

theorem SameCore.acceptBlock (h : SameCore s t) (b : Block) (undo : BlockUndo) :
    SameCore (acceptBlock C E s b undo) (ChainState.acceptBlock C E t b undo) := by
  have hpush := (h.pushBlock (C := C) (E := E) b undo).advanceFinality (E := E) s.height
  refine (acceptBlock_sameCore s b undo).trans (hpush.trans ?_)
  rw [h.height]
  exact (acceptBlock_sameCore t b undo).symm

theorem SameCore.connectBlock (h : SameCore s t) (b : Block) :
    (connectBlock C E A b s).1 = (ChainState.connectBlock C E A b t).1 ∧
      SameCore (ChainState.connectBlock C E A b s).2 (ChainState.connectBlock C E A b t).2 := by
  simp only [ChainState.connectBlock, read_bind, h.sameChecks.validateBlock, h.applyTransactions, h.issued]
  simp only [bind_apply, lift_apply, within_apply]
  rcases ChainState.validateBlock C E A t b with e | _
  · exact ⟨rfl, h⟩
  · dsimp only
    rw [h.ledger]
    rcases ChainState.applyTransactions C E t b t.toLedger with ⟨e | undo, L⟩
    · exact ⟨rfl, h.setLedger L⟩
    · dsimp only
      rcases failIf (u64Max < t.issued + undo.subsidyCreated) "Supply overflow" with e | _
      · exact ⟨rfl, h.setLedger L⟩
      · simp only [update_apply, true_and]
        exact (h.setLedger L).acceptBlock b undo

theorem SameCore.popBlock (h : SameCore s t) (b : Block) (undo : BlockUndo) :
    SameCore (popBlock C E s b undo) (ChainState.popBlock C E t b undo) where
  ledger := by simp only [ChainState.popBlock, h.ledger]
  poawx := by
    simp only [ChainState.popBlock, h.height]
    exact h.poawx.revertBlock b (t.height - 1)
  params := h.params
  height := by simp only [ChainState.popBlock, h.chain]
  chain := by simp only [ChainState.popBlock, h.chain]
  totalWork := by simp only [ChainState.popBlock, h.totalWork]
  issued := by simp only [ChainState.popBlock, h.issued]
  bestTip := by simp only [ChainState.popBlock, h.chain]
  undoLogs := by simp only [ChainState.popBlock, h.height, h.undoLogs]
  finalizedHeight := by simp only [ChainState.popBlock, h.chain, h.finalizedHeight]

theorem SameCore.disconnectTipBlock (h : SameCore s t) :
    (disconnectTipBlock C E s).1 = (ChainState.disconnectTipBlock C E t).1 ∧
      SameCore (ChainState.disconnectTipBlock C E s).2 (ChainState.disconnectTipBlock C E t).2 := by
  have htip : tipUndo C E s = tipUndo C E t := by
    obtain ⟨dominance, mode, signal, index, anchors, orphaned, -, rfl⟩ := h.exists_eq
    rfl
  simp only [ChainState.disconnectTipBlock, read_bind, htip]
  simp only [bind_apply, lift_apply]
  rcases tipUndo C E t with e | tip
  · exact ⟨rfl, h⟩
  · simp only [update_apply, pure_apply, true_and]
    exact h.popBlock tip.1 tip.2

end ChainState

end IriumConsensus
