import IriumConsensus.Lib.Checks
import IriumConsensus.Poawx.Penalty

namespace IriumConsensus

open ByteCodec Checks

def roleProposer : UInt8 := 0

structure RoleCandidate where
  roleId : UInt8
  solverPkh : Pkh
  assignmentPublicKey : PubKey33
  ticketDigest : Hash32
  penaltyStatus : UInt8
  assignmentProofDigest : Hash32
  dominanceWeight : UInt64
  penaltyWeight : UInt64
  effectiveScore : UInt64
  roleClaimDigest : Hash32
  deriving DecidableEq, Repr

structure CandidateSet where
  networkId : UInt8
  targetHeight : UInt64
  seed : Hash32
  candidates : List RoleCandidate
  deriving DecidableEq, Repr

structure AssignmentProofV2 where
  version : UInt8
  networkId : UInt8
  targetHeight : UInt64
  roleId : UInt8
  solverPkh : Pkh
  assignmentPublicKey : PubKey33
  ticketDigest : Hash32
  seed : Hash32
  vrfOutput : Hash32
  vrfProof : ByteVec 81
  digest : Hash32
  deriving DecidableEq, Repr

def maxCandidates : Nat := 256
def roleCandidateWire : Nat := 175
def assignmentProofV2Wire : Nat := 273

def RoleCandidate.serialize (c : RoleCandidate) : Bytes :=
  [c.roleId] ++ c.solverPkh.bytes ++ c.assignmentPublicKey.bytes ++ c.ticketDigest.bytes ++
    [c.penaltyStatus] ++ c.assignmentProofDigest.bytes ++ le64 c.dominanceWeight ++
    le64 c.penaltyWeight ++ le64 c.effectiveScore ++ c.roleClaimDigest.bytes

def CandidateSet.serialize (cs : CandidateSet) : Bytes :=
  [cs.networkId] ++ le64 cs.targetHeight ++ cs.seed.bytes ++ leList 2 cs.candidates.length ++
    cs.candidates.flatMap RoleCandidate.serialize

def AssignmentProofV2.body (p : AssignmentProofV2) : Bytes :=
  [p.version, p.networkId] ++ le64 p.targetHeight ++ [p.roleId] ++ p.solverPkh.bytes ++
    p.assignmentPublicKey.bytes ++ p.ticketDigest.bytes ++ p.seed.bytes ++ p.vrfOutput.bytes ++
    p.vrfProof.bytes

def AssignmentProofV2.serialize (p : AssignmentProofV2) : Bytes := p.body ++ p.digest.bytes

def assignmentScoreFromDigest (digest : Hash32) : Nat := leNat (digest.bytes.take 8)

def assignmentV2ScoreFromOutput (vrfOutput : Hash32) : Nat := leNat (vrfOutput.bytes.take 8)

def effectiveScore (assignmentScore dominanceWeight penaltyWeight : Nat) : Nat :=
  min (min (assignmentScore * dominanceWeight * penaltyWeight) u128Max / 1000000) u64Max

variable (C : Crypto) (E : NodeEnv)

def computeAssignmentProofDigest (networkId : UInt8) (targetHeight : Nat) (roleId : UInt8) (solverPkh : Pkh)
    (assignmentPublicKey : PubKey33) (ticketDigest seed : Hash32) : Hash32 :=
  C.sha256 (asciiBytes "IRIUM_POAWX_ASSIGNMENT_PROOF_V1" ++ [networkId] ++ leList 8 targetHeight ++ [roleId] ++
    solverPkh.bytes ++ assignmentPublicKey.bytes ++ ticketDigest.bytes ++ seed.bytes)

def RoleCandidate.validateScoring (c : RoleCandidate) : Except String Unit := do
  let ps ← orFail (PenaltyStatus.fromId c.penaltyStatus) "candidate: bad penalty status"
  failIf (c.penaltyWeight.toNat ≠ ps.weightMultiplierPermille) "candidate: penalty weight mismatch"
  failIf (c.effectiveScore.toNat ≠ IriumConsensus.effectiveScore (assignmentScoreFromDigest c.assignmentProofDigest)
    c.dominanceWeight.toNat c.penaltyWeight.toNat) "candidate: effective score mismatch"

def RoleCandidate.validateSelf (c : RoleCandidate) (networkId : UInt8) (targetHeight : Nat) (seed : Hash32) :
    Except String Unit := do
  failIf (computeAssignmentProofDigest C networkId targetHeight c.roleId c.solverPkh c.assignmentPublicKey
    c.ticketDigest seed ≠ c.assignmentProofDigest) "candidate: assignment proof digest mismatch"
  c.validateScoring

/-- The tuples of fixed-length arrays that `sort_key` returns compare as their concatenations. -/
def RoleCandidate.sortKey (c : RoleCandidate) : Nat :=
  beNat ([c.roleId] ++ c.solverPkh.bytes ++ c.ticketDigest.bytes ++ c.assignmentProofDigest.bytes)

def candidateBetter (a b : RoleCandidate) : Bool :=
  if a.effectiveScore ≠ b.effectiveScore then b.effectiveScore < a.effectiveScore
  else if a.assignmentProofDigest ≠ b.assignmentProofDigest then
    a.assignmentProofDigest.toNat < b.assignmentProofDigest.toNat
  else if a.solverPkh ≠ b.solverPkh then a.solverPkh.toNat < b.solverPkh.toNat
  else a.ticketDigest.toNat < b.ticketDigest.toNat

def strictlyIncreasing : List Nat → Bool
  | a :: b :: rest => decide (a < b) && strictlyIncreasing (b :: rest)
  | _ => true

theorem strictlyIncreasing_iff {l : List Nat} : strictlyIncreasing l ↔ l.Pairwise (· < ·) := by
  rw [← List.isChain_iff_pairwise]
  fun_induction strictlyIncreasing l with
  | case1 a b rest ih => simp [ih]
  | case2 l h =>
    match l, h with
    | [], _ | [_], _ => simp
    | a :: b :: rest, h => exact absurd rfl (h a b rest)

def CandidateSet.isCanonical (cs : CandidateSet) : Bool :=
  strictlyIncreasing (cs.candidates.map RoleCandidate.sortKey)

def CandidateSet.root (cs : CandidateSet) : Hash32 :=
  C.sha256 (asciiBytes "IRIUM_POAWX_CANDIDATE_SET_V1" ++ cs.serialize)

def betterOf (best : Option RoleCandidate) (c : RoleCandidate) : Option RoleCandidate :=
  match best with
  | none => some c
  | some b => if candidateBetter c b then some c else some b

def CandidateSet.bestForRole (cs : CandidateSet) (roleId : UInt8) : Option RoleCandidate :=
  (cs.candidates.filter fun c => c.roleId = roleId).foldl betterOf none

def AssignmentProofV2.computeDigest (p : AssignmentProofV2) : Hash32 :=
  C.sha256 (asciiBytes "IRIUM_POAWX_ASSIGNMENT_PROOF_V2" ++ p.body)

def AssignmentProofV2.vrfMessage (p : AssignmentProofV2) : Bytes :=
  asciiBytes "IRIUM_POAWX_VRF_MESSAGE_V2" ++ [p.networkId] ++ le64 p.targetHeight ++ [p.roleId] ++
    p.solverPkh.bytes ++ p.ticketDigest.bytes ++ p.seed.bytes ++ p.assignmentPublicKey.bytes

def auditHardeningActive (height : Nat) : Bool := poawxGate E .auditHardening height

def AssignmentProofV2.validate (p : AssignmentProofV2) (networkId : UInt8) (targetHeight : Nat) :
    Except String Unit := do
  failIf (p.version ≠ 2) "assignment v2: bad version"
  failIf (p.networkId ≠ networkId) "assignment v2: wrong network"
  failIf (p.targetHeight.toNat ≠ targetHeight) "assignment v2: wrong height"
  failIf (p.computeDigest C ≠ p.digest) "assignment v2: digest mismatch"
  failIf (C.pointFromBytes p.assignmentPublicKey = false) "assignment v2: bad vrf public key"
  let used ← orFail (C.vrfProofDecode p.vrfProof) "assignment v2: malformed vrf proof"
  failIf (used ≠ 81) "assignment v2: trailing proof bytes"
  let out ← orFail (C.vrfVerify p.assignmentPublicKey p.vrfMessage p.vrfProof)
    "assignment v2: vrf verification failed"
  failIf (out ≠ p.vrfOutput) "assignment v2: vrf output mismatch"
  failIf (auditHardeningActive E targetHeight ∧ p.roleId = roleProposer ∧
    p.solverPkh ≠ hash160 C p.assignmentPublicKey.bytes)
    "assignment v2: solver pkh not derived from vrf key (audit)"

section

variable (height : Nat)

def candidateSetActive : Bool := poawxGate E .candidateSet height
def candidateSetEnforced : Bool := poawxEnforced E .candidateSet .candidateSet height
def assignmentProofEnforced : Bool := poawxEnforced E .assignmentProof .assignmentProof height
def trueVrfActive : Bool := poawxGate E .trueVrf height
def trueVrfEnforced : Bool := poawxEnforced E .trueVrf .trueVrf height
def candidateAdmissionEnforced : Bool := poawxEnforced E .candidateAdmission .candidateAdmission height

end

end IriumConsensus
