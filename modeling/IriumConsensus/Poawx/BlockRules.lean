import IriumConsensus.ChainState
import IriumConsensus.Poawx.Admission
import IriumConsensus.Poawx.Receipts

namespace IriumConsensus

open ByteCodec Checks

variable (C : Crypto) (E : NodeEnv)

def checkVoteParents (fp : FinalityProofV1) (height : Nat) : Except String Unit :=
  failIf (auditHardeningActive E height ∧ fp.votes.any (fun v => decide (v.parentHash ≠ fp.parentHash)))
    "phase21h: finality vote parent_hash mismatch (audit)"

def checkExtFinality (b : Block) (height : Nat) (p : PoawxBlockReceipt × Phase20ReceiptExt) :
    Except String Unit := do
  let fp ← orFail p.2.finalityProof "phase21h: missing required finality proof"
  let cs ← orFail p.2.candidateSet "phase21h: finality enforcement requires candidate set"
  let committee := (cs.candidates.filter fun c => c.roleId = roleSupportContributor).map RoleCandidate.solverPkh
  failIf (fp.thresholdNum.toNat ≠ (finalityThreshold E).1 ∨ fp.thresholdDen.toNat ≠ (finalityThreshold E).2)
    "phase21h: finality threshold mismatch"
  fp.validate C (networkIdByte E) height b.header.prevHash committee
  checkVoteParents E fp height

def validateBlockFinality (b : Block) (height : Nat) : Except String Unit :=
  checkAll (checkExtFinality C E b height) b.extensions

def checkRolePuzzle (b : Block) (height : Nat) (cs : CandidateSet) (p : UInt8 × PuzzleSolutionV1) :
    Except String Unit := do
  let cand ← orFail (cs.bestForRole p.1) s!"phase21f: no candidate for role {p.1}"
  let challenge := PuzzleChallengeV1.build C (networkIdByte E) height p.1 cand.solverPkh cand.ticketDigest
    cand.assignmentProofDigest (C.sha256 cand.serialize) b.header.prevHash (defaultProfile E)
  (verifySolution C challenge p.2).mapError (s!"phase21f: puzzle proof role {p.1} invalid: " ++ ·)

def checkExtPuzzles (b : Block) (height : Nat) (p : PoawxBlockReceipt × Phase20ReceiptExt) :
    Except String Unit := do
  let sols ← orFail p.2.rolePuzzleProofs "phase21f: missing required puzzle proofs"
  let cs ← orFail p.2.candidateSet "phase21f: puzzle enforcement requires candidate set"
  checkAll (checkRolePuzzle C E b height cs) (roleIds.zip sols).toList

def validateBlockPuzzleProofs (b : Block) (height : Nat) : Except String Unit :=
  checkAll (checkExtPuzzles C E b height) b.extensions

def checkExtAdmission (height : Nat) (seed : Hash32) (p : PoawxBlockReceipt × Phase20ReceiptExt) :
    Except String Unit := do
  let ca ← orFail p.2.committedAdmission "phase22a: missing own committed admission"
  ca.validate C (networkIdByte E) height
  failIf (ca.commitHeight.toNat ≠ height) "phase22a: own commitment wrong commit height"
  failIf (ca.seed ≠ seed) "phase22a: own commitment wrong freeze seed"
  let cs ← orFail p.2.candidateSet "phase22a: committed admission requires a candidate set"
  failIf (ca.matchesCandidateSet C cs = false)
    "phase22a: candidate set does not match committed admission root"

def validateBlockCommittedAdmission (b : Block) (previous : Option Block) (height : Nat) : Except String Unit :=
  if E.activationHeight .committedAdmission = some height then .ok ()
  else checkAll (checkExtAdmission C E height (expectedEpochSeed C E height b.header.prevHash previous)) b.extensions

def checkRoleVrf (height : Nat) (cs : CandidateSet) (p : UInt8 × Pkh × AssignmentProofV2) :
    Except String Unit := do
  let cand ← orFail (cs.bestForRole p.1) s!"phase22d: no candidate for role {p.1}"
  failIf (cand.solverPkh ≠ p.2.1) s!"phase22d: role {p.1} selected != best candidate"
  let pr := p.2.2
  pr.validate C E (networkIdByte E) height
  failIf (pr.roleId ≠ p.1) "phase22d: v2 proof wrong role"
  failIf (pr.solverPkh ≠ cand.solverPkh) "phase22d: v2 proof wrong solver"
  failIf (pr.ticketDigest ≠ cand.ticketDigest) "phase22d: v2 proof wrong ticket digest"
  failIf (pr.assignmentPublicKey ≠ cand.assignmentPublicKey) "phase22d: v2 proof wrong assignment key"
  failIf (pr.seed ≠ cs.seed) "phase22d: v2 proof wrong seed"
  failIf (pr.vrfOutput ≠ cand.assignmentProofDigest) "phase22d: candidate score not derived from VRF output"

def checkExtVrf (height : Nat) (p : PoawxBlockReceipt × Phase20ReceiptExt) : Except String Unit := do
  let proofs ← orFail p.2.roleAssignmentV2 "phase22d: missing required V2 assignment proofs (V1 not accepted)"
  let cs ← orFail p.2.candidateSet "phase22d: true-VRF requires a candidate set"
  checkAll (checkRoleVrf C E height cs) (roleIds.zip (p.2.roleReward.zip proofs)).toList

def validateBlockTrueVrf (b : Block) (height : Nat) : Except String Unit :=
  checkAll (checkExtVrf C E height) b.extensions

namespace ChainState

variable (s : ChainState)

def checkExtWeights (height : Nat) (p : PoawxBlockReceipt × Phase20ReceiptExt) : Except String Unit := do
  let weights ← orFail p.2.roleDominanceWeights "phase21c: missing required role_dominance_weights"
  let pkhs := p.1.workerPkh :: p.2.roleReward.toList
  checkEach (fun i q => failIf (q.2.toNat ≠ s.dominance.weight dominanceBaseWorkScore q.1 height)
      s!"phase21c: dominance weight mismatch role {i} got {q.2} expected {s.dominance.weight dominanceBaseWorkScore q.1 height}")
    (pkhs.zip (weights.primary :: weights.roles.toList))

def validateBlockDominanceWeights (b : Block) (height : Nat) : Except String Unit :=
  checkAll (checkExtWeights s height) b.extensions

def checkCandidate (height : Nat) (cs : CandidateSet) (cand : RoleCandidate) : Except String Unit := do
  if trueVrfActive E height then cand.validateScoring else cand.validateSelf C (networkIdByte E) height cs.seed
  let expect := s.dominance.weight dominanceBaseWorkScore cand.solverPkh height
  failIf (antiDominationActive E height ∧ cand.dominanceWeight.toNat ≠ expect)
    s!"phase21d: candidate dominance weight mismatch got {cand.dominanceWeight} expected {expect}"

def checkSelected (cs : CandidateSet) (p : UInt8 × Pkh) : Except String Unit := do
  let best ← orFail (cs.bestForRole p.1) s!"phase21d: no candidate for role {p.1}"
  failIf (best.solverPkh ≠ p.2) s!"phase21d: selected role {p.1} solver is not the best candidate"

/-- The set equals the node's own admissions, unless commitments in the chain replace them. -/
def checkAdmitted (A : Ambient) (height : Nat) (seed : Hash32) (cs : CandidateSet) : Except String Unit :=
  if candidateAdmissionEnforced E height && !committedAdmissionEnforced E height then do
    let admitted := A.admittedCandidateSet height seed
    failIf (cs.serialize ≠ admitted.serialize) "phase21e: candidate set does not match admitted candidates"
    checkAll (fun role : UInt8 => failIf (admitted.bestForRole role = none)
      s!"phase21e: no admitted candidate for role {role}") roleIds.toList
  else .ok ()

def checkExtCandidates (A : Ambient) (height : Nat) (seed : Hash32) (p : PoawxBlockReceipt × Phase20ReceiptExt) :
    Except String Unit := do
  let cs ← orFail p.2.candidateSet "phase21d: missing required candidate set"
  failIf (cs.networkId ≠ networkIdByte E) "phase21d: candidate set wrong network"
  failIf (cs.targetHeight.toNat ≠ height) "phase21d: candidate set wrong height"
  failIf (cs.seed ≠ seed) "phase21d: candidate set wrong seed"
  failIf (cs.isCanonical = false) "phase21d: candidate set not canonical"
  checkAll (checkCandidate C E s height cs) cs.candidates
  checkAll (checkSelected cs) (roleIds.zip p.2.roleReward).toList
  checkAdmitted E A height seed cs

def validateBlockCandidateSets (A : Ambient) (b : Block) (height : Nat) : Except String Unit :=
  checkAll (checkExtCandidates C E s A height (expectedEpochSeed C E height b.header.prevHash s.chain.getLast?))
    b.extensions

/-- The offences of a block so far are neither repeated in it nor recorded already. -/
def checkFraudProofs (height : Nat) : List FraudProofV1 → List Offence → Except String (List Offence)
  | [], seen => .ok seen
  | fp :: rest, seen => do
    let off ← verifyFraudProof C fp (networkIdByte E) height
    failIf (off ∈ seen) "fraudproof: duplicate offence within block"
    failIf (s.penalty.isOffenceRecorded off) "fraudproof: offence already slashed"
    checkFraudProofs height rest (off :: seen)

def checkExtFraud (height : Nat) : List (PoawxBlockReceipt × Phase20ReceiptExt) → List Offence →
    Except String Unit
  | [], _ => .ok ()
  | p :: rest, seen => do
    let proofs := p.2.fraudProofs.getD []
    failIf (fraudProofMaxPerBlock < proofs.length) "fraudproof: too many fraud proofs in receipt"
    let seen ← checkFraudProofs C E s height proofs seen
    checkExtFraud height rest seen

def validateBlockFraudProofs (b : Block) (height : Nat) : Except String Unit :=
  checkExtFraud C E s height b.extensions []

def registrationSection (b : Block) : Except String (Option ProposerRegistrationSection) :=
  match b.extensions.filterMap fun p => p.2.proposerRegistrations with
  | [] => .ok none
  | [sec] => .ok (some sec)
  | _ => .error "proposer registration: multiple sections in block"

def checkActivations (acts : List ProposerRegistrationV1) : Except String Unit := do
  let k := min proposerRegCap s.proposerRegQueue.length
  failIf (acts.length ≠ k)
    s!"proposer registration: must force-drain {k} queue-head entries, got {acts.length}"
  checkEach (fun i p => failIf (p.1 ≠ p.2)
    s!"proposer registration: activation[{i}] does not match the queue head") (s.proposerRegQueue.zip acts)

def checkAnnounces (height : Nat) : List ProposerRegistrationV1 → List PubKey33 → Except String Unit
  | [], _ => .ok ()
  | a :: rest, seen => do
    failIf (registrationAnchorValid a.anchorHeight.toNat height proposerRegAnchorWindow = false)
      "proposer registration: anchor outside the recent window"
    let anchor ← orFail s.chain[a.anchorHeight.toNat]? "proposer registration: unknown anchor height"
    a.validate C (networkIdByte E) (anchor.header.hashForHeight C E a.anchorHeight.toNat) (effectiveSybilBits E)
    failIf (a.vrfPubkey ∈ seen) "proposer registration: duplicate or already-queued key"
    checkAnnounces height rest (a.vrfPubkey :: seen)

def validateBlockProposerRegistrations (b : Block) (height : Nat) : Except String Unit := do
  let sec ← registrationSection b
  checkActivations s ((sec.map ProposerRegistrationSection.activations).getD [])
  let announces := (sec.map ProposerRegistrationSection.announces).getD []
  failIf (proposerAnnounceCap < announces.length) "proposer registration: announces over cap"
  checkAnnounces C E s height announces (s.proposerRegQueue.map ProposerRegistrationV1.vrfPubkey)

/-- The proposer is a registered key whose VRF output is low enough for the round it claims. -/
def checkReceiptProposer (b : Block) (height : Nat) (seed : Hash32) (parentTime : Nat) (r : PoawxBlockReceipt) :
    Except String Unit := do
  let ext ← orFail r.phase20Ext s!"proposer: receipt missing extension at height {height}"
  let pa ← orFail ext.proposerAssignment s!"proposer: missing proposer assignment at height {height}"
  let proof := pa.proof
  let n := s.proposerRegistry.eligibleCount E height
  let round := pa.round.toNat
  let priority := proposerPriority proof.vrfOutput
  let threshold := proposerThreshold n round
  let minTime := minTimeForRound parentTime round (proposerRoundIntervalSecs E)
  proof.validate C E (networkIdByte E) height
  failIf (proof.roleId ≠ roleProposer) "proposer: assignment proof wrong role"
  failIf (proof.seed ≠ seed) "proposer: assignment proof wrong seed"
  failIf (proof.ticketDigest ≠ ByteVec.zero 32) "proposer: non-canonical ticket digest"
  failIf (proof.solverPkh ≠ hash160 C proof.assignmentPublicKey.bytes)
    "proposer: solver pkh not derived from vrf key"
  failIf (proof.solverPkh ≠ r.workerPkh) "proposer: proposer is not the block worker"
  failIf (0 < n ∧ s.proposerRegistry.isEligible E proof.assignmentPublicKey height = false)
    ("proposer: vrf key (pkh " ++ encodeHex proof.solverPkh.bytes ++
      s!") not eligible / not frozen-registered at height {height}")
  failIf (threshold ≤ priority)
    s!"proposer: not selected at round {round} (priority {priority} >= threshold {threshold})"
  failIf (b.header.time.toNat < minTime)
    s!"proposer: round {round} too early (time {b.header.time} < required {minTime})"

/-- A receipt without an extension is refused here, not skipped. -/
def validateBlockProposer (b : Block) (height : Nat) (previous : Option Block) : Except String Unit :=
  checkAll (checkReceiptProposer C E s b height (expectedEpochSeed C E height b.header.prevHash previous)
    ((previous.map fun p => p.header.time.toNat).getD 0)) b.receipts

end ChainState

end IriumConsensus
