import IriumConsensus.ChainState
import IriumConsensus.Poawx.Payout

namespace IriumConsensus

variable (C : Crypto) (E : NodeEnv)

def dominanceEventsFromBlock (b : Block) (height : Nat) : List (Pkh × RoleRewardKind × Nat) :=
  let amounts := multiRoleAmounts (blockReward E height)
  b.extensions.flatMap fun p =>
    [(p.1.workerPkh, .primary, amounts.1),
      (p.2.roleReward.compute, .compute, amounts.2.compute),
      (p.2.roleReward.verify, .verify, amounts.2.verify),
      (p.2.roleReward.support, .support, amounts.2.support)]

def fraudEventsFromBlock (b : Block) : List Offence :=
  b.extensions.flatMap fun p =>
    (p.2.fraudProofs.getD []).map fun fp => (fp.offenderPkh, fp.targetHeight, fp.kind)

def proposerKeysFromBlock (b : Block) (registrationActive : Bool) : List (PubKey33 × Pkh) :=
  b.extensions.flatMap fun p =>
    (if registrationActive then [] else
      ((p.2.roleAssignmentV2.map PerRole.toList).getD []).map fun q => (q.assignmentPublicKey, q.solverPkh)) ++
    p.2.proposerAssignment.toList.map fun pa => (pa.proof.assignmentPublicKey, pa.proof.solverPkh)

def proposerRegSectionFromBlock (b : Block) : Option ProposerRegistrationSection :=
  b.extensions.findSome? fun p => p.2.proposerRegistrations

namespace PoawxState

variable (s : PoawxState) (b : Block) (height : Nat)

def applyBlockDominance : PoawxState :=
  if antiDominationActive E height = false then s
  else
    { s with
      dominance := (dominanceEventsFromBlock E b height).foldl (fun d e => d.applyEvent e.1 e.2.1 e.2.2 height)
        s.dominance }

def revertBlockDominance : PoawxState :=
  if antiDominationActive E height = false then s
  else
    { s with
      dominance := (dominanceEventsFromBlock E b height).foldl (fun d e => d.revertEvent e.1 e.2.1 e.2.2 height)
        s.dominance }

def applyBlockProposerRegistry : PoawxState :=
  if proposerVrfActive E height = false then s
  else
    { s with
      proposerRegistry := (proposerKeysFromBlock b (proposerRegistrationActive E height)).foldl
        (fun g k => g.register k.1 k.2 height) s.proposerRegistry }

def revertBlockProposerRegistry : PoawxState :=
  if proposerVrfActive E height = false then s
  else
    { s with
      proposerRegistry := (proposerKeysFromBlock b (proposerRegistrationActive E height)).foldl
        (fun g k => g.unregister k.1 height) s.proposerRegistry }

/-- Each activation takes one entry off the head of the queue. -/
def applyBlockProposerRegistrations : PoawxState :=
  if proposerRegistrationActive E height = false then s
  else match proposerRegSectionFromBlock b with
    | none => s
    | some sec =>
      { s with
        proposerRegQueue := s.proposerRegQueue.drop sec.activations.length ++ sec.announces
        proposerRegistry := sec.activations.foldl (fun g r => g.register r.vrfPubkey (r.pkh C) height)
          s.proposerRegistry }

def revertBlockProposerRegistrations : PoawxState :=
  if proposerRegistrationActive E height = false then s
  else match proposerRegSectionFromBlock b with
    | none => s
    | some sec =>
      { s with
        proposerRegQueue := sec.activations ++
          s.proposerRegQueue.take (s.proposerRegQueue.length - sec.announces.length)
        proposerRegistry := sec.activations.foldl (fun g r => g.unregister r.vrfPubkey height)
          s.proposerRegistry }

def applyBlockFraudSlashing : PoawxState :=
  if fraudProofEnforced E height = false then s
  else { s with penalty := (fraudEventsFromBlock b).foldl (fun p o => p.applySlash o height) s.penalty }

def revertBlockFraudSlashing : PoawxState :=
  if fraudProofEnforced E height = false then s
  else { s with penalty := (fraudEventsFromBlock b).foldl PersistentPenalty.revertSlash s.penalty }

end PoawxState

def adaptiveSignalWindow : Nat := 32

namespace ChainState

variable (s : ChainState) (height : Nat)

def recentBlocks : List Block := s.chain.drop (s.chain.length - adaptiveSignalWindow)

def recentMiners : List Pkh :=
  ((recentBlocks s).flatMap fun b => b.receipts.map PoawxBlockReceipt.workerPkh).dedup

def recentRoles : List Pkh :=
  ((recentBlocks s).flatMap fun b => b.extensions.flatMap fun p => p.2.roleReward.toList).dedup

def computeNetworkSignals : NetworkSignals where
  activeMinerCount := min (recentMiners s).length u32Max
  validRoleCount := min (recentRoles s).length u32Max
  recentInvalidWork := min (s.penalty.recentOffenceCount (height - adaptiveSignalWindow)) u32Max
  recentReorgSignal := s.reorgSignal
  rewardConcentrationPermille :=
    (recentMiners s).foldl (fun share m => max share (s.dominance.recentRewardSharePermille m height)) 0
  finalityAvailable := finalityCommitteeActive E height

def updateAdaptiveMode : ChainState :=
  if adaptiveModeActive E height = false then s
  else { s with
    adaptiveMode := assess (computeNetworkSignals E s height) s.adaptiveMode
    reorgSignal := s.reorgSignal - 1 }

def blockFinalityProof (b : Block) : Option FinalityProofV1 := b.extensions.findSome? fun p => p.2.finalityProof

/-- Enough registered members of a large enough committee voted to commit in the tip's proof. -/
def blockFinalityHasGenuineQuorum : Bool :=
  match s.chain.getLast?.bind blockFinalityProof with
  | none => false
  | some proof =>
    let committeeSize := s.proposerRegistry.eligibleCount E (height - 1)
    let voters := (proof.votes.filter fun v =>
      decide (v.voteType = 1) && s.proposerRegistry.isRegistered v.memberPubkey).map FinalityVoteV1.memberPubkey
    decide (minFinalityCommittee E ≤ committeeSize ∧
      ceilDiv (committeeSize * max proof.thresholdNum.toNat 1) (max proof.thresholdDen.toNat 1) ≤
        voters.toFinset.card)

end ChainState

end IriumConsensus
