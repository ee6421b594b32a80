import IriumConsensus.Poawx.BlockRules
import IriumConsensus.Poawx.Effects

namespace IriumConsensus

open ByteCodec Checks FinMaps Stateful

variable (C : Crypto) (E : NodeEnv) (A : Ambient)

def wrappingSub64 (a b : Nat) : Nat := (a + 2 ^ 64 - b) % 2 ^ 64

/-- The inverse of `Ledger.commit` from the undo data of a block. -/
def Ledger.revert (L : Ledger) (undo : BlockUndo) : Ledger where
  utxos := insertAll (eraseAll L.utxos undo.created) undo.spent
  btc :=
    { relay := (undo.btcRelayUpdate.map fun u => undoRelayUpdate u L.btc.relay).getD L.btc.relay
      claimed := L.btc.claimed \ undo.claimedAdded.btc.toFinset }
  ltc :=
    { relay := (undo.ltcRelayUpdate.map fun u => undoRelayUpdate u L.ltc.relay).getD L.ltc.relay
      claimed := L.ltc.claimed \ undo.claimedAdded.ltc.toFinset }

namespace PoawxState

variable (s : PoawxState) (b : Block) (height : Nat)

def applyBlock : PoawxState :=
  let s := applyBlockDominance E s b height
  let s := applyBlockProposerRegistry E s b height
  let s := applyBlockProposerRegistrations C E s b height
  applyBlockFraudSlashing E s b height

def revertBlock : PoawxState :=
  let s := revertBlockDominance E s b height
  let s := revertBlockProposerRegistrations E s b height
  let s := revertBlockProposerRegistry E s b height
  { revertBlockFraudSlashing E s b height with reorgSignal := min (s.reorgSignal + 1) u32Max }

/-- Each effect of a block has its own part of the state, but for the registry, where two meet. -/
theorem applyBlock_parts :
    (applyBlock C E s b height).dominance = (applyBlockDominance E s b height).dominance ∧
    (applyBlock C E s b height).penalty = (applyBlockFraudSlashing E s b height).penalty ∧
    (applyBlock C E s b height).proposerRegQueue = (applyBlockProposerRegistrations C E s b height).proposerRegQueue ∧
    (applyBlock C E s b height).proposerRegistry =
      (applyBlockProposerRegistrations C E (applyBlockProposerRegistry E s b height) b height).proposerRegistry := by
  unfold applyBlock applyBlockDominance applyBlockProposerRegistry applyBlockProposerRegistrations applyBlockFraudSlashing
  cases proposerRegSectionFromBlock b <;> split_ifs <;> exact ⟨rfl, rfl, rfl, rfl⟩

theorem revertBlock_parts :
    (revertBlock E s b height).dominance = (revertBlockDominance E s b height).dominance ∧
    (revertBlock E s b height).penalty = (revertBlockFraudSlashing E s b height).penalty ∧
    (revertBlock E s b height).proposerRegQueue = (revertBlockProposerRegistrations E s b height).proposerRegQueue ∧
    (revertBlock E s b height).proposerRegistry =
      (revertBlockProposerRegistry E (revertBlockProposerRegistrations E s b height) b height).proposerRegistry := by
  unfold revertBlock revertBlockDominance revertBlockProposerRegistry revertBlockProposerRegistrations
    revertBlockFraudSlashing
  cases proposerRegSectionFromBlock b <;> split_ifs <;> exact ⟨rfl, rfl, rfl, rfl⟩

end PoawxState

namespace ChainState

variable (s : ChainState) (b : Block)

/-- The block rules on receipts and their extensions, each under its own gate. -/
def validatePoawxBlock : Except String Unit := do
  let height := s.height
  let previous := s.chain.getLast?
  validatePoawxCoinbase E b height
  validatePoawxBlockReceipts C E b height previous
  checkWhen (antiDominationEnforced E height) (validateBlockDominanceWeights s b height)
  checkWhen (candidateSetEnforced E height || candidateAdmissionEnforced E height)
    (validateBlockCandidateSets C E s A b height)
  checkWhen (puzzleWorkEnforced E height) (validateBlockPuzzleProofs C E b height)
  checkWhen (finalityCommitteeEnforced E height) (validateBlockFinality C E b height)
  checkWhen (committedAdmissionEnforced E height) (validateBlockCommittedAdmission C E b previous height)
  checkWhen (trueVrfEnforced E height) (validateBlockTrueVrf C E b height)
  checkWhen (fraudProofEnforced E height) (validateBlockFraudProofs C E s b height)
  checkWhen (proposerVrfEnforced E height) (validateBlockProposer C E s b height previous)
  checkWhen (proposerRegistrationActive E height) (validateBlockProposerRegistrations C E s b height)

/-- All that is checked before the transactions of a block are applied. -/
def validateBlock : Except String Unit := do
  validateBlockHeader C E s b s.height A.now
  validatePoawxBlock C E A s b

def blockHash : Hash32 := b.header.hashForHeight C E s.height

def pushBlock (undo : BlockUndo) : ChainState :=
  let hash := blockHash C E s b
  { s with
    totalWork := s.totalWork + b.work
    chain := s.chain ++ [b]
    height := s.height + 1
    issued := s.issued + undo.subsidyCreated
    blockStore := s.blockStore.insert hash b
    heights := s.heights.insert hash s.height
    cumulativeWork := s.cumulativeWork.insert hash (s.totalWork + b.work)
    undoLogs := s.undoLogs.insert hash undo
    bestTip := hash
    toPoawxState := s.toPoawxState.applyBlock C E b s.height }

/-- The block at `height` has become the tip and finalizes its parent; under hardening only if its
proof is signed by a real quorum. -/
def advanceFinality (height : Nat) : ChainState :=
  if finalityCommitteeEnforced E height &&
      (!forkChoiceHardeningActive E height || blockFinalityHasGenuineQuorum E s height) then
    { s with finalizedHeight := max s.finalizedHeight (height - 1) }
  else s

def acceptBlock (undo : BlockUndo) : ChainState :=
  let s' := updateAdaptiveMode E (pushBlock C E s b undo) s.height
  pruneCaches C E (advanceFinality E s' s.height)

def setLedger (L : Ledger) (s : ChainState) : ChainState := { s with toLedger := L }

/-- The transactions of a block on top of the chain; it may create what is left of the supply. -/
def applyTransactions : Run Ledger String BlockUndo :=
  validateAndApplyTransactions C E s.params s.height b (blockReward E s.height) true
    (some (wrappingSub64 maxMoney s.issued))

def connectBlock (b : Block) : Run ChainState String Unit := do
  let s ← read
  lift (validateBlock C E A s b)
  let undo ← within toLedger setLedger (applyTransactions C E s b)
  lift (failIf (u64Max < s.issued + undo.subsidyCreated) "Supply overflow")
  update fun s => acceptBlock C E s b undo

/-- Take off the tip block `b` with its undo data. -/
def popBlock (undo : BlockUndo) : ChainState :=
  let chain := s.chain.dropLast
  let newTipHeight := chain.length - 1
  { s with
    toLedger := s.toLedger.revert undo
    undoLogs := s.undoLogs.erase (b.header.hashForHeight C E (s.height - 1))
    issued := s.issued - undo.subsidyCreated
    totalWork := s.totalWork - b.work
    chain
    height := chain.length
    finalizedHeight := min s.finalizedHeight (newTipHeight - 1)
    bestTip := (chain.getLast?.map fun tip => tip.header.hashForHeight C E newTipHeight).getD (ByteVec.zero 32)
    toPoawxState := s.toPoawxState.revertBlock E b (s.height - 1) }

def tipUndo : Except String (Block × BlockUndo) := do
  let tip ← orFail s.chain.getLast? "cannot disconnect empty chain"
  failIf (s.chain.length ≤ 1) "cannot disconnect genesis"
  let undo ← orFail (s.undoLogs.lookup (tip.header.hashForHeight C E (s.height - 1)))
    "missing undo data for tip block"
  return (tip, undo)

def disconnectTipBlock : Run ChainState String Block := do
  let s ← read
  let tip ← lift (tipUndo C E s)
  update fun s => popBlock C E s tip.1 tip.2
  return tip.1

def blank (params : ChainParams) : ChainState where
  utxos := ∅
  btc := ⟨Relay.empty, ∅⟩
  ltc := ⟨Relay.empty, ∅⟩
  dominance := PersistentDominance.fromEnv E
  params
  height := 0
  chain := []
  totalWork := 0
  issued := 0
  bestTip := ByteVec.zero 32

def acceptGenesis (undo : BlockUndo) : ChainState :=
  { s with
    totalWork := b.work
    chain := s.chain ++ [b]
    height := 1
    issued := undo.subsidyCreated
    bestTip := b.header.hashForHeight C E 0 }

def connectGenesis (b : Block) : Run ChainState String Unit := do
  let s ← read
  lift (failIf (s.chain ≠ []) "Genesis block already connected")
  lift (validateBlockHeader C E s b 0 A.now)
  let undo ← within toLedger setLedger (validateAndApplyTransactions C E s.params 0 b 0 false (some maxMoney))
  update fun s => acceptGenesis C E s b undo

def indexGenesis (genesis : Block) : ChainState :=
  let hash := genesis.header.hashForHeight C E 0
  { s with
    blockStore := s.blockStore.insert hash genesis
    heights := s.heights.insert hash 0
    cumulativeWork := s.cumulativeWork.insert hash genesis.work
    totalWork := genesis.work
    bestTip := hash }

def new (params : ChainParams) : Option ChainState :=
  match connectGenesis C E A params.genesisBlock (blank E params) with
  | (.ok _, s) => some (indexGenesis C E s params.genesisBlock)
  | (.error _, _) => none

section

variable {C : Crypto} {E : NodeEnv} {A : Ambient} {s s' : ChainState} {b : Block} {height : Nat} {u : Unit}
  {e : String}

theorem validateBlockHeader_pow {now : Int} (h : validateBlockHeader C E s b height now = .ok ()) :
    checkPow C E s b height b.header.target "Block does not satisfy proof-of-work target" = .ok () := by
  simp only [validateBlockHeader, bind_eq_ok, exists_unit, failIf_eq_ok, not_not] at h
  obtain ⟨-, -, -, hbits, hpow⟩ := h
  have htarget : targetForHeight E s height = b.header.target := by
    rw [BlockHeader.target, hbits]
  rwa [htarget] at hpow

theorem checkPow_native {target : Target} {err : String} (h : checkPow C E s b height target err = .ok ()) :
    s.usesAuxpow b height ∨ nativePow C E b.header height target := by
  unfold checkPow at h
  split at h
  next haux => exact .inl haux
  next => exact .inr (by simpa [failIf_eq_ok] using h)

theorem updateAdaptiveMode_eq (s : ChainState) (height : Nat) :
    ∃ mode signal, updateAdaptiveMode E s height = { s with adaptiveMode := mode, reorgSignal := signal } := by
  unfold updateAdaptiveMode
  split_ifs <;> exact ⟨_, _, rfl⟩

theorem advanceFinality_eq (s : ChainState) (height : Nat) :
    ∃ finalized, advanceFinality E s height = { s with finalizedHeight := finalized } ∧
      (finalized = s.finalizedHeight ∨ finalized = max s.finalizedHeight (height - 1)) := by
  unfold advanceFinality
  split_ifs
  · exact ⟨_, rfl, .inr rfl⟩
  · exact ⟨_, rfl, .inl rfl⟩

theorem acceptBlock_pushed (s : ChainState) (b : Block) (undo : BlockUndo) :
    ∃ mode signal finalized, acceptBlock C E s b undo = pruneCaches C E
      { pushBlock C E s b undo with adaptiveMode := mode, reorgSignal := signal, finalizedHeight := finalized } ∧
      (finalized = s.finalizedHeight ∨ finalized = max s.finalizedHeight (s.height - 1)) := by
  obtain ⟨mode, signal, hmode⟩ := updateAdaptiveMode_eq (E := E) (pushBlock C E s b undo) s.height
  obtain ⟨finalized, hfin, hle⟩ := advanceFinality_eq (E := E) (updateAdaptiveMode E (pushBlock C E s b undo) s.height)
    s.height
  rw [hmode] at hle
  exact ⟨mode, signal, finalized, by rw [acceptBlock, hfin, hmode], hle⟩

/-- Beyond `pushBlock`, accepting a block touches the caches, the PoAW-X state and the watermark. -/
theorem acceptBlock_eq (s : ChainState) (b : Block) (undo : BlockUndo) :
    ∃ poawx index finalized,
      acceptBlock C E s b undo =
        { pushBlock C E s b undo with
          toPoawxState := poawx, toBlockIndex := index, finalizedHeight := finalized } ∧
      (finalized = s.finalizedHeight ∨ finalized = max s.finalizedHeight (s.height - 1)) := by
  obtain ⟨mode, signal, finalized, heq, hfin⟩ := acceptBlock_pushed (C := C) (E := E) s b undo
  obtain ⟨index, hindex⟩ := pruneCaches_eq C E
    { pushBlock C E s b undo with adaptiveMode := mode, reorgSignal := signal, finalizedHeight := finalized }
  exact ⟨_, index, finalized, heq.trans hindex, hfin⟩

theorem acceptBlock_grows (s : ChainState) (b : Block) (undo : BlockUndo) :
    (acceptBlock C E s b undo).chain = s.chain ++ [b] ∧ (acceptBlock C E s b undo).height = s.height + 1 ∧
      (acceptBlock C E s b undo).totalWork = s.totalWork + b.work ∧ (acceptBlock C E s b undo).params = s.params := by
  obtain ⟨poawx, index, finalized, heq, -⟩ := acceptBlock_eq (C := C) (E := E) s b undo
  rw [heq]
  exact ⟨rfl, rfl, rfl, rfl⟩

theorem acceptBlock_poawx (s : ChainState) (b : Block) (undo : BlockUndo) :
    ∃ mode signal, (acceptBlock C E s b undo).toPoawxState =
      { s.toPoawxState.applyBlock C E b s.height with adaptiveMode := mode, reorgSignal := signal } := by
  obtain ⟨mode, signal, finalized, heq, -⟩ := acceptBlock_pushed (C := C) (E := E) s b undo
  obtain ⟨index, hindex⟩ := pruneCaches_eq C E
    { pushBlock C E s b undo with adaptiveMode := mode, reorgSignal := signal, finalizedHeight := finalized }
  exact ⟨mode, signal, by rw [heq, hindex]; rfl⟩

/-- Of the environment the transactions read the maturity of coinbase outputs and the reward. -/
theorem applyTransactions_congr {E' : NodeEnv} (hmaturity : coinbaseMaturity E' = coinbaseMaturity E)
    (hreward : ∀ height, blockReward E' height = blockReward E height) (s : ChainState) (b : Block) :
    applyTransactions C E' s b = applyTransactions C E s b := by
  have hinputs : ∀ L tx inputs i seen consumed total,
      checkInputs C E' s.params L s.height tx i inputs seen consumed total =
        checkInputs C E s.params L s.height tx i inputs seen consumed total := by
    intro L tx inputs
    induction inputs with
    | nil => exact fun _ _ _ _ => rfl
    | cons txin inputs ih =>
      intro i seen consumed total
      simp only [checkInputs, checkInput, hmaturity, ih]
  have hregular : ∀ txs acc updates,
      applyRegularTransactions C E' s.params s.height b.header.time txs acc updates =
        applyRegularTransactions C E s.params s.height b.header.time txs acc updates := by
    intro txs
    induction txs with
    | nil => exact fun _ _ => rfl
    | cons tx txs ih =>
      intro acc updates
      simp only [applyRegularTransactions, validateTransactionInternal, hinputs, ih]
  simp only [applyTransactions, validateAndApplyTransactions, hregular, hreward]

theorem connectBlock_eq_ok :
    connectBlock C E A b s = (.ok u, s') ↔
      validateBlock C E A s b = .ok () ∧
        ∃ undo L, applyTransactions C E s b s.toLedger = (.ok undo, L) ∧
          s.issued + undo.subsidyCreated ≤ u64Max ∧ s' = acceptBlock C E (s.setLedger L) b undo := by
  simp only [connectBlock, read_bind, lift_bind_ok_iff, within_bind_ok_iff, exists_unit, failIf_eq_ok, not_lt,
    update_apply, Prod.mk.injEq, true_and, eq_comm (a := s')]

theorem connectBlock_error (h : connectBlock C E A b s = (.error e, s')) :
    validateBlock C E A s b = .error e ∧ s' = s ∨
      validateBlock C E A s b = .ok () ∧ ∃ L, s' = s.setLedger L ∧
        (applyTransactions C E s b s.toLedger = (.error e, L) ∨
          ∃ undo, applyTransactions C E s b s.toLedger = (.ok undo, L) ∧
            u64Max < s.issued + undo.subsidyCreated) := by
  simp only [connectBlock, read_bind, lift_bind_error_iff, within_bind_error_iff, exists_unit, update_apply,
    Prod.mk.injEq, reduceCtorEq, false_and, and_false, or_false] at h
  rcases h with h | ⟨hv, ⟨L, hL, rfl⟩ | ⟨undo, L, hL, hs, rfl⟩⟩
  · exact .inl h
  · exact .inr ⟨hv, L, rfl, .inl hL⟩
  · refine .inr ⟨hv, L, rfl, .inr ⟨undo, hL, ?_⟩⟩
    by_contra hle
    simp [failIf, hle] at hs

theorem disconnectTipBlock_eq_ok {tip : Block} :
    disconnectTipBlock C E s = (.ok tip, s') ↔
      ∃ undo, tipUndo C E s = .ok (tip, undo) ∧ s' = popBlock C E s tip undo := by
  simp only [disconnectTipBlock, read_bind, lift_bind_ok_iff, update_bind, pure_apply, Prod.mk.injEq,
    Except.ok.injEq, Prod.exists]
  constructor
  · rintro ⟨_, undo, ht, rfl, rfl⟩
    exact ⟨undo, ht, rfl⟩
  · rintro ⟨undo, ht, rfl⟩
    exact ⟨tip, undo, ht, rfl, rfl⟩

theorem disconnectTipBlock_error (h : disconnectTipBlock C E s = (.error e, s')) : s' = s := by
  simp only [disconnectTipBlock, read_bind, lift_bind_error_iff, update_bind, pure_apply, Prod.mk.injEq,
    reduceCtorEq, false_and, and_false, exists_false, or_false] at h
  exact h.2

theorem connectGenesis_eq_ok :
    connectGenesis C E A b s = (.ok u, s') ↔
      s.chain = [] ∧ validateBlockHeader C E s b 0 A.now = .ok () ∧
        ∃ undo L, validateAndApplyTransactions C E s.params 0 b 0 false (some maxMoney) s.toLedger = (.ok undo, L) ∧
          acceptGenesis C E (s.setLedger L) b undo = s' := by
  simp only [connectGenesis, read_bind, lift_bind_ok_iff, within_bind_ok_iff, exists_unit, failIf_eq_ok,
    update_apply, Prod.mk.injEq, true_and, not_not]

theorem new_eq_some {params : ChainParams} (h : new C E A params = some s) :
    ∃ undo L, validateAndApplyTransactions C E params 0 params.genesisBlock 0 false (some maxMoney)
        (blank E params).toLedger = (.ok undo, L) ∧
      s = indexGenesis C E (acceptGenesis C E ((blank E params).setLedger L) params.genesisBlock undo)
        params.genesisBlock := by
  unfold new at h
  split at h
  next s' hok =>
    obtain ⟨-, -, undo, L, hL, rfl⟩ := connectGenesis_eq_ok.mp hok
    exact ⟨undo, L, hL, (Option.some.inj h).symm⟩
  next => simp at h

end

end ChainState

end IriumConsensus
