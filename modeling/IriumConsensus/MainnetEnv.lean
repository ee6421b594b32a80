import IriumConsensus.MainnetHalt
import IriumConsensus.OrderCovenant
import IriumConsensus.WellFormed

namespace IriumConsensus

open Checks Stateful

def ActivationVar.isPoawx : ActivationVar → Bool
  | .htlcv1 | .mpsov1 | .lwma | .lwmaV2 | .auxpow | .blockTimeV2 | .btcSpvRelay | .ltcSpvRelay | .htlcBtcSwapV1
  | .htlcLtcSwapV1 | .swapOrderV1 | .ltcSwapOrderV1 | .btcSwapBech32Payment | .coinbaseHeaderBatch => false
  | _ => true

def NumericVar.isPoawx : NumericVar → Bool
  | .coinbaseMaturity | .headerCacheWindow | .blockStoreWindow => false
  | _ => true

/-- Two environments that differ in the variables `IRIUM_POAWX_*` at most. -/
structure SameOutsidePoawx (E E' : NodeEnv) : Prop where
  network : E'.network = E.network
  activation : ∀ v : ActivationVar, v.isPoawx = false → E'.activationHeight v = E.activationHeight v
  number : ∀ v : NumericVar, v.isPoawx = false → E'.number v = E.number v
  standardHeader : E'.standardHeaderActivationHeight = E.standardHeaderActivationHeight

variable {C : Crypto} {E E' : NodeEnv} {A : Ambient}

theorem network_mainnet (hm : networkKind E = .mainnet) : E.network = .mainnet := by
  unfold networkKind at hm
  cases hn : E.network <;> simp [hn, NetworkVar.kind] at hm ⊢

theorem poawxGate_eq (hm : networkKind E = .mainnet) (v : ActivationVar) (height : Nat) :
    poawxGate E v height = decide (50000 ≤ height) := by
  simp [poawxGate, poawxEffectiveActivation, (networkIdByte_eq_zero_iff E).mpr hm, activeFrom,
    mainnetPoawxActivationHeight]

theorem poawxEnforced_eq (hm : networkKind E = .mainnet) (v : ActivationVar) (r : RequiredVar) (height : Nat) :
    poawxEnforced E v r height = decide (50000 ≤ height) := by
  rw [poawxEnforced, poawxGate_eq hm, poawxRequired_mainnet hm, Bool.and_true]

theorem poawxConsensusActive_eq (hm : networkKind E = .mainnet) (height : Nat) :
    poawxConsensusActive E height = decide (50000 ≤ height) := by
  simp [poawxConsensusActive, (networkIdByte_eq_zero_iff E).mpr hm, activeFrom, mainnetPoawxActivationHeight]

section

variable (hs : SameOutsidePoawx E E') (hm : networkKind E = .mainnet)

include hs

theorem SameOutsidePoawx.mainnet (hm : networkKind E = .mainnet) : networkKind E' = .mainnet := by
  unfold networkKind at hm ⊢
  rw [hs.network, hm]

theorem hashForHeight_same (h : BlockHeader) (height : Nat) :
    h.hashForHeight C E' height = h.hashForHeight C E height := by
  simp only [BlockHeader.hashForHeight, BlockHeader.serializeForHeight, hs.standardHeader]

include hm

theorem mainnet_env_cases : ∃ act act' req req' num num' mode mode' pool pool' std,
    E = ⟨.mainnet, act, req, num, mode, pool, std⟩ ∧ E' = ⟨.mainnet, act', req', num', mode', pool', std⟩ := by
  have hn := network_mainnet hm
  have hn' := hs.network.trans hn
  have hh := hs.standardHeader
  obtain ⟨net, act, req, num, mode, pool, std⟩ := E
  obtain ⟨net', act', req', num', mode', pool', std'⟩ := E'
  simp only at hn hn' hh
  subst hn hn' hh
  exact ⟨act, act', req, req', num, num', mode, mode', pool, pool', _, rfl, rfl⟩

theorem blockReward_same (height : Nat) : blockReward E' height = blockReward E height := by
  obtain ⟨_, _, _, _, _, _, _, _, _, _, _, rfl, rfl⟩ := mainnet_env_cases hs hm
  rfl

theorem coinbaseMaturity_same : coinbaseMaturity E' = coinbaseMaturity E := by
  obtain ⟨_, _, _, _, _, _, _, _, _, _, _, rfl, rfl⟩ := mainnet_env_cases hs hm
  rfl

namespace ChainState

variable (s : ChainState)

theorem applyTransactions_same (b : Block) : applyTransactions C E' s b = applyTransactions C E s b :=
  applyTransactions_congr (coinbaseMaturity_same hs hm) (blockReward_same hs hm) s b

theorem validateBlockHeader_same (b : Block) (height : Nat) (now : Int) :
    validateBlockHeader C E' s b height now = validateBlockHeader C E s b height now := by
  obtain ⟨_, _, _, _, _, _, _, _, _, _, _, rfl, rfl⟩ := mainnet_env_cases hs hm
  rfl

theorem validateBlock_same (b : Block) (hh : s.height < 50000) : validateBlock C E' A s b = validateBlock C E A s b := by
  have hm' := hs.mainnet hm
  have hoff : decide (50000 ≤ s.height) = false := decide_eq_false (by omega)
  simp only [validateBlock, validateBlockHeader_same hs hm, validatePoawxBlock, validatePoawxCoinbase,
    validatePoawxBlockReceipts, antiDominationEnforced, candidateSetEnforced, candidateAdmissionEnforced,
    puzzleWorkEnforced, finalityCommitteeEnforced, committedAdmissionEnforced, trueVrfEnforced, fraudProofEnforced,
    proposerVrfEnforced, proposerRegistrationActive, proposerVrfActive, poawxEnforced_eq hm, poawxEnforced_eq hm',
    poawxGate_eq hm, poawxGate_eq hm', poawxConsensusActive_eq hm, poawxConsensusActive_eq hm', hoff, hm, hm',
    Bool.or_self, Bool.and_self, checkWhen, Bool.false_eq_true, ↓reduceIte]

omit hm in
theorem pruneCaches_same : pruneCaches C E' s = pruneCaches C E s := by
  have hw : headerCacheWindow E' = headerCacheWindow E := by
    rw [headerCacheWindow, headerCacheWindow, hs.number .headerCacheWindow rfl]
  have hb : blockStoreWindow E' = blockStoreWindow E := by
    rw [blockStoreWindow, blockStoreWindow, hs.number .blockStoreWindow rfl]
  simp only [pruneCaches, pruneBlockStore, pruneHeaderCache, isHashOnMainChain, hashForHeight_same hs, hw, hb]

theorem acceptBlock_same (b : Block) (undo : BlockUndo) (hh : s.height < 50000) :
    acceptBlock C E' s b undo = acceptBlock C E s b undo := by
  have hm' := hs.mainnet hm
  have hoff : decide (50000 ≤ s.height) = false := decide_eq_false (by omega)
  simp only [acceptBlock, pruneCaches_same hs, advanceFinality, updateAdaptiveMode, pushBlock, blockHash,
    hashForHeight_same hs, PoawxState.applyBlock, PoawxState.applyBlockDominance, PoawxState.applyBlockProposerRegistry,
    PoawxState.applyBlockProposerRegistrations, PoawxState.applyBlockFraudSlashing, antiDominationActive,
    proposerRegistrationActive, proposerVrfActive, fraudProofEnforced, finalityCommitteeEnforced, adaptiveModeActive,
    poawxEnforced_eq hm, poawxEnforced_eq hm', poawxGate_eq hm, poawxGate_eq hm', hoff, Bool.and_self, Bool.false_and,
    ↓reduceIte, Bool.false_eq_true]

theorem connectBlock_same (b : Block) (hh : s.height < 50000) : connectBlock C E' A b s = connectBlock C E A b s := by
  -- the transactions leave the height as it is
  have haccept : ∀ (L : Ledger) (undo : BlockUndo),
      acceptBlock C E' (s.setLedger L) b undo = acceptBlock C E (s.setLedger L) b undo :=
    fun L undo => acceptBlock_same hs hm (s.setLedger L) b undo hh
  simp only [connectBlock, read_bind, validateBlock_same hs hm s b hh, applyTransactions_same hs hm]
  simp only [bind_apply, lift_apply, within_apply]
  rcases validateBlock C E A s b with e | _
  · rfl
  · dsimp only
    rcases applyTransactions C E s b s.toLedger with ⟨e | undo, L⟩
    · rfl
    · dsimp only
      rcases failIf (u64Max < s.issued + undo.subsidyCreated) "Supply overflow" with e | _
      · rfl
      · simp only [update_apply, haccept]

omit hm in
theorem findReorgPath_same (hash : Hash32) : findReorgPath C E' s hash = findReorgPath C E s hash := by
  have hwalk : ∀ fuel cur branch, walkBack C E' s fuel cur branch = walkBack C E s fuel cur branch := by
    intro fuel
    induction fuel with
    | zero => exact fun _ _ => rfl
    | succ fuel ih => exact fun cur branch => by simp only [walkBack, isHashOnMainChain, hashForHeight_same hs, ih]
  exact hwalk _ _ _

omit hm in
theorem tipHash_same : tipHash C E' s = tipHash C E s := by
  unfold tipHash
  split
  next => exact hashForHeight_same hs _ _
  next => rfl

theorem forkChoice_same (p : Placement) : forkChoice C E' s p = forkChoice C E s p := by
  have hm' := hs.mainnet hm
  simp only [forkChoice, proposerRankChainBetter, findReorgPath_same hs, tipHash_same hs, proposerVrfEnforced,
    forkChoiceHardeningActive, poawxEnforced_eq hm, poawxEnforced_eq hm', poawxGate_eq hm, poawxGate_eq hm']

theorem place_same (b : Block) : place C E' s b = place C E s b := by
  obtain ⟨_, _, _, _, _, _, _, _, _, _, _, rfl, rfl⟩ := mainnet_env_cases hs hm
  rfl

theorem checkPlacement_same (b : Block) (p : Placement) : checkPlacement C E' s b p = checkPlacement C E s b p := by
  obtain ⟨_, _, _, _, _, _, _, _, _, _, _, rfl, rfl⟩ := mainnet_env_cases hs hm
  rfl

theorem checkReorg_same (ancestor : Nat) (hh : s.height ≤ 50000) : checkReorg E' s ancestor = checkReorg E s ancestor := by
  have hoff : decide (50000 ≤ s.tipHeight) = false := decide_eq_false (by rw [tipHeight]; omega)
  simp only [checkReorg, forkChoiceHardeningActive, poawxGate_eq hm, poawxGate_eq (hs.mainnet hm), hoff, failIf,
    Bool.false_eq_true, false_and, ↓reduceIte]

theorem popBlock_same (b : Block) (undo : BlockUndo) (hh : s.height ≤ 50000) (hpos : 0 < s.height) :
    popBlock C E' s b undo = popBlock C E s b undo := by
  have hm' := hs.mainnet hm
  have hoff : decide (50000 ≤ s.height - 1) = false := decide_eq_false (by omega)
  simp only [popBlock, hashForHeight_same hs, PoawxState.revertBlock, PoawxState.revertBlockDominance,
    PoawxState.revertBlockProposerRegistry, PoawxState.revertBlockProposerRegistrations,
    PoawxState.revertBlockFraudSlashing, antiDominationActive, proposerVrfActive, proposerRegistrationActive,
    fraudProofEnforced, poawxEnforced_eq hm, poawxEnforced_eq hm', poawxGate_eq hm, poawxGate_eq hm', hoff, ↓reduceIte]

theorem tipUndo_same : tipUndo C E' s = tipUndo C E s := by
  obtain ⟨_, _, _, _, _, _, _, _, _, _, _, rfl, rfl⟩ := mainnet_env_cases hs hm
  rfl

end ChainState

end

namespace ChainState

variable {s : ChainState} {b : Block}

/-- The chain has not passed the height at which the rules for receipts begin on mainnet. -/
def BelowActivation (s : ChainState) : Prop := s.chain.length ≤ s.height ∧ s.height ≤ 50000

theorem disconnectTipBlock_belowActivation (h : BelowActivation s) : BelowActivation (disconnectTipBlock C E s).2 := by
  rcases hr : disconnectTipBlock C E s with ⟨e | tip, t⟩
  · obtain rfl := disconnectTipBlock_error hr
    exact h
  · obtain ⟨undo, -, rfl⟩ := disconnectTipBlock_eq_ok.mp hr
    have hlen : s.chain.dropLast.length ≤ s.height := (List.dropLast_sublist s.chain).length_le.trans h.1
    exact ⟨le_rfl, hlen.trans h.2⟩

theorem connectBlock_belowActivation (hm : networkKind E = .mainnet) (b : Block) (h : BelowActivation s) :
    BelowActivation (connectBlock C E A b s).2 := by
  rcases hr : connectBlock C E A b s with ⟨e | u, t⟩
  · rcases connectBlock_error hr with ⟨-, rfl⟩ | ⟨-, L, rfl, -⟩
    · exact h
    · exact h
  · obtain ⟨hv, undo, L, -, -, rfl⟩ := connectBlock_eq_ok.mp hr
    have hlt : s.height < 50000 := not_le.mp fun hle => validateBlock_mainnet hm hle b hv
    obtain ⟨hchain, hheight, -⟩ := acceptBlock_grows (C := C) (E := E) (s.setLedger L) b undo
    refine ⟨?_, ?_⟩
    · rw [hchain, hheight, List.length_append]
      exact Nat.add_le_add_right h.1 1
    · rw [hheight]
      exact hlt

theorem Reachable.belowActivation (hm : networkKind E = .mainnet) (hs : Reachable C E s) : BelowActivation s := by
  refine ReachableBy.induct ?_ ?_ hs
  · intro A params s _ hnew
    obtain ⟨undo, L, -, rfl⟩ := new_eq_some hnew
    exact ⟨le_rfl, show 1 ≤ 50000 by decide⟩
  · intro s t h hstep
    cases hstep with
    | connect A b _ => exact connectBlock_belowActivation hm b h
    | disconnect => exact disconnectTipBlock_belowActivation h
    | reindex => exact h

section

variable (hs : SameOutsidePoawx E E') (hm : networkKind E = .mainnet)

include hs hm

/-- Below the activation height the same rules are run, and at it no block is accepted under either environment. -/
theorem connectBlock_alike (b : Block) : Alike BelowActivation (connectBlock C E A b) (connectBlock C E' A b) := by
  intro s h
  refine ⟨connectBlock_belowActivation hm b h, ?_⟩
  by_cases hh : s.height < 50000
  · rw [connectBlock_same hs hm s b hh]
    exact ⟨rfl, rfl⟩
  · have hrefused : ∀ {F : NodeEnv}, networkKind F = .mainnet → ∃ e, connectBlock C F A b s = (.error e, s) := by
      intro F hF
      rcases hr : connectBlock C F A b s with ⟨e | u, s'⟩
      · rcases connectBlock_error hr with ⟨-, rfl⟩ | ⟨hv, -⟩
        · exact ⟨e, rfl⟩
        · exact absurd hv (validateBlock_mainnet hF (by omega) b)
      · exact absurd (connectBlock_eq_ok.mp hr).1 (validateBlock_mainnet hF (by omega) b)
    obtain ⟨e, he⟩ := hrefused (hs.mainnet hm)
    obtain ⟨e', he'⟩ := hrefused hm
    rw [he, he']
    exact ⟨rfl, rfl⟩

theorem disconnectTipBlock_alike : Alike BelowActivation (disconnectTipBlock C E) (disconnectTipBlock C E') := by
  refine .of_eq (fun s h => ?_) fun s => disconnectTipBlock_belowActivation
  simp only [disconnectTipBlock, read_bind, tipUndo_same hs hm]
  rcases ht : tipUndo C E s with e | tip
  · rfl
  · have hpos : 0 < s.height := by
      have hne : s.chain ≠ [] := by
        rintro hnil
        simp [tipUndo, hnil, orFail] at ht
      exact (List.length_pos_of_ne_nil hne).trans_le h.1
    simp only [bind_apply, lift_apply, update_apply, popBlock_same hs hm s tip.1 tip.2 h.2 hpos]

theorem disconnectTo_alike (ancestor fuel : Nat) :
    Alike BelowActivation (disconnectTo C E ancestor fuel) (disconnectTo C E' ancestor fuel) := by
  induction fuel with
  | zero => exact .pure []
  | succ fuel ih =>
    refine .read_bind fun s _ => ?_
    split
    · exact .pure []
    · exact (disconnectTipBlock_alike hs hm).bind fun b => ih.bind fun rest => .pure _

theorem disconnectTips_alike (n : Nat) : Alike BelowActivation (disconnectTips C E n) (disconnectTips C E' n) := by
  induction n with
  | zero => exact .pure ()
  | succ n ih => exact (disconnectTipBlock_alike hs hm).attempt_bind (fun _ => ih) fun _ _ => ih

theorem reconnect_alike (bs : List Block) : Alike BelowActivation (reconnect C E A bs) (reconnect C E' A bs) := by
  induction bs with
  | nil => exact .pure ()
  | cons b bs ih => exact (connectBlock_alike hs hm b).attempt_bind (fun _ => ih) fun _ _ => ih

theorem connectBranch_alike (disconnected branch : List Block) (connected : Nat) :
    Alike BelowActivation (connectBranch C E A disconnected branch connected)
      (connectBranch C E' A disconnected branch connected) := by
  induction branch generalizing connected with
  | nil => exact .pure ()
  | cons b rest ih =>
    refine (connectBlock_alike hs hm b).attempt_bind (fun _ => ih (connected + 1)) fun e e' => ?_
    exact (disconnectTips_alike hs hm connected).bind fun _ =>
      (reconnect_alike hs hm disconnected.reverse).bind fun _ => .fail _ _

theorem reorgToTip_alike (newTip : Hash32) : Alike BelowActivation (reorgToTip C E A newTip) (reorgToTip C E' A newTip) := by
  refine .read_bind fun s h => ?_
  rw [findReorgPath_same hs]
  refine (Alike.lift _).bind fun path => ?_
  split
  · exact .pure ()
  · rw [checkReorg_same hs hm s path.1 h.2]
    refine (Alike.lift _).bind fun _ => .read_bind fun t _ => ?_
    exact (disconnectTo_alike hs hm path.1 _).bind fun disconnected =>
      (connectBranch_alike hs hm disconnected path.2 0).bind fun _ => .update fun t ht => ⟨ht, rfl⟩

theorem adoptBlock_alike (b : Block) (p : Placement) :
    Alike BelowActivation (adoptBlock C E A b p) (adoptBlock C E' A b p) := by
  refine .read_bind fun s _ => ?_
  rw [tipHash_same hs, forkChoice_same hs hm]
  split
  · exact (connectBlock_alike hs hm b).bind fun _ => .pure true
  · refine (Alike.lift _).bind fun better => ?_
    split
    · exact (reorgToTip_alike hs hm p.hash).bind fun _ => .pure true
    · exact .pure false

theorem indexAndAdopt_alike (b : Block) (p : Placement) :
    Alike BelowActivation (indexAndAdopt C E A b p) (indexAndAdopt C E' A b p) := by
  refine .bind (.update fun s h => ⟨h, rfl⟩) fun _ => .attempt_bind (adoptBlock_alike hs hm b p) (fun _ => .pure _) ?_
  exact fun e e' => .bind (.update fun s h => ⟨h, rfl⟩) fun _ => .fail e e'

omit hs hm in
theorem processChildren_alike {process process' : Block → Run ChainState String (Nat × Hash32)}
    (hp : ∀ b, Alike BelowActivation (process b) (process' b)) (children : List Block) (newHash : Hash32) :
    Alike BelowActivation (processChildren process children newHash) (processChildren process' children newHash) := by
  induction children generalizing newHash with
  | nil => exact .pure newHash
  | cons child rest ih => exact (hp child).attempt_bind (fun r => ih r.2) fun _ _ => ih newHash

omit hs hm in
theorem drainOrphans_alike {process process' : Block → Run ChainState String (Nat × Hash32)}
    (hp : ∀ b, Alike BelowActivation (process b) (process' b)) (fuel : Nat) (newHash : Hash32) :
    Alike BelowActivation (drainOrphans process fuel newHash) (drainOrphans process' fuel newHash) := by
  induction fuel generalizing newHash with
  | zero => exact .fail _ _
  | succ fuel ih =>
    refine .read_bind fun s _ => ?_
    split
    · exact .pure ()
    · exact .bind (.update fun s h => ⟨h, rfl⟩) fun _ => .bind (processChildren_alike hp _ newHash) fun _ => ih _

theorem processBlock_alike (fuel : Nat) (b : Block) :
    Alike BelowActivation (processBlock C E A fuel b) (processBlock C E' A fuel b) := by
  have hprune : ∀ s, BelowActivation s → BelowActivation (pruneCaches C E s) ∧ pruneCaches C E' s = pruneCaches C E s := by
    intro s h
    obtain ⟨index, hindex⟩ := pruneCaches_eq C E s
    exact ⟨hindex ▸ h, pruneCaches_same hs s⟩
  induction fuel generalizing b with
  | zero => exact .fail _ _
  | succ fuel ih =>
    refine .read_bind fun s _ => ?_
    split
    · exact .bind (.update fun s h => ⟨h, rfl⟩) fun _ => .fail _ _
    · refine .read_bind fun s _ => ?_
      simp only [place_same hs hm, checkPlacement_same hs hm]
      refine .bind (.lift _) fun _ => .bind (indexAndAdopt_alike hs hm b _) fun _ => .read_bind fun t _ => ?_
      rw [tipHash_same hs]
      refine .bind (drainOrphans_alike ih fuel _) fun _ => .bind (.update hprune) fun _ => .read_bind fun u _ => ?_
      rw [tipHash_same hs]
      exact .bind (.lift _) fun _ => .pure _

end

/-- On mainnet no variable `IRIUM_POAWX_*` changes what `connect_block` answers and leaves behind, nor what
`process_block` does with a block: no chain gets to the heights where such a variable is read. -/
theorem mainnet_ignores_environment (hm : networkKind E = .mainnet) (he : SameOutsidePoawx E E') (hs : Reachable C E s)
    (b : Block) (fuel : Nat) :
    ((connectBlock C E' A b s).1.toOption = (connectBlock C E A b s).1.toOption ∧
        (connectBlock C E' A b s).2 = (connectBlock C E A b s).2) ∧
      (processBlock C E' A fuel b s).1.toOption = (processBlock C E A fuel b s).1.toOption ∧
        (processBlock C E' A fuel b s).2 = (processBlock C E A fuel b s).2 := by
  have hbelow := hs.belowActivation hm
  obtain ⟨-, hstate, hvalue⟩ := connectBlock_alike (A := A) he hm b s hbelow
  obtain ⟨-, hstate', hvalue'⟩ := processBlock_alike (A := A) he hm fuel b s hbelow
  exact ⟨⟨hvalue, hstate⟩, hvalue', hstate'⟩

def withMaxReorgDepth (E : NodeEnv) (depth : Nat) : NodeEnv :=
  { E with number := fun v => if v = .maxReorgDepth then some depth else E.number v }

theorem withMaxReorgDepth_same (E : NodeEnv) (depth : Nat) : SameOutsidePoawx E (withMaxReorgDepth E depth) := by
  refine ⟨rfl, fun _ _ => rfl, fun v hv => ?_, rfl⟩
  have hne : v ≠ .maxReorgDepth := by rintro rfl; cases hv
  exact if_neg hne

/-- The variable is read, but for reorgs of tips above the height where mainnet stops. -/
theorem reorg_depth_variable_ignored :
    networkKind mainnetNode = .mainnet ∧ ∃ s, Reachable shaCrypto mainnetNode s ∧ ∀ b fuel,
      ((connectBlock shaCrypto (withMaxReorgDepth mainnetNode 10) quietAmbient b s).1.toOption =
          (connectBlock shaCrypto mainnetNode quietAmbient b s).1.toOption ∧
        (connectBlock shaCrypto (withMaxReorgDepth mainnetNode 10) quietAmbient b s).2 =
          (connectBlock shaCrypto mainnetNode quietAmbient b s).2) ∧
      (processBlock shaCrypto (withMaxReorgDepth mainnetNode 10) quietAmbient fuel b s).1.toOption =
          (processBlock shaCrypto mainnetNode quietAmbient fuel b s).1.toOption ∧
        (processBlock shaCrypto (withMaxReorgDepth mainnetNode 10) quietAmbient fuel b s).2 =
          (processBlock shaCrypto mainnetNode quietAmbient fuel b s).2 := by
  obtain ⟨s, hs, -⟩ := exists_reachable_of_runOf (C := shaCrypto) (E := mainnetNode) quietAmbient mainnetParams []
    (fun _ => True) (by decide +kernel)
  exact ⟨rfl, s, hs, fun b fuel =>
    mainnet_ignores_environment rfl (withMaxReorgDepth_same mainnetNode 10) hs b fuel⟩

end ChainState

end IriumConsensus
