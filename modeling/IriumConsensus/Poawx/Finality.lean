import IriumConsensus.Poawx.Dominance
import IriumConsensus.Poawx.Ticket

namespace IriumConsensus

open ByteCodec Checks

structure FinalityVoteV1 where
  version : UInt8
  networkId : UInt8
  targetHeight : UInt64
  blockHash : Hash32
  parentHash : Hash32
  committeeEpoch : UInt64
  memberPkh : Pkh
  memberPubkey : PubKey33
  ticketDigest : Hash32
  voteType : UInt8
  signature : Sig64
  deriving DecidableEq, Repr

structure FinalityProofV1 where
  version : UInt8
  networkId : UInt8
  targetHeight : UInt64
  blockHash : Hash32
  parentHash : Hash32
  committeeEpoch : UInt64
  thresholdNum : UInt16
  thresholdDen : UInt16
  votes : List FinalityVoteV1
  deriving DecidableEq, Repr

structure FraudProofV1 where
  version : UInt8
  kind : UInt8
  networkId : UInt8
  targetHeight : UInt64
  offenderPkh : Pkh
  reporterPkh : Pkh
  voteA : FinalityVoteV1
  voteB : FinalityVoteV1
  deriving DecidableEq, Repr

inductive FinalityVoteType where
  | precommit
  | commit
  | checkpoint
  deriving DecidableEq, Repr

def FinalityVoteType.fromId (b : UInt8) : Option FinalityVoteType :=
  match b.toNat with
  | 0 => some .precommit
  | 1 => some .commit
  | 2 => some .checkpoint
  | _ => none

def finalityVoteWire : Nat := 232
def finalityMaxVotes : Nat := 256
def fraudProofV1Wire : Nat := 515
def fraudProofMaxPerBlock : Nat := 16
def fraudKindFinalityEquivocation : UInt8 := 0

/-- The accusation built from two votes, the one for the lower block hash first. -/
def FraudProofV1.finalityEquivocation (networkId : UInt8) (reporterPkh : Pkh) (voteA voteB : FinalityVoteV1) :
    FraudProofV1 where
  version := 1
  kind := fraudKindFinalityEquivocation
  networkId := networkId
  targetHeight := voteA.targetHeight
  offenderPkh := voteA.memberPkh
  reporterPkh := reporterPkh
  voteA := if voteA.blockHash.toNat ≤ voteB.blockHash.toNat then voteA else voteB
  voteB := if voteA.blockHash.toNat ≤ voteB.blockHash.toNat then voteB else voteA

def FinalityVoteV1.serialize (v : FinalityVoteV1) : Bytes :=
  [v.version, v.networkId] ++ le64 v.targetHeight ++ v.blockHash.bytes ++ v.parentHash.bytes ++
    le64 v.committeeEpoch ++ v.memberPkh.bytes ++ v.memberPubkey.bytes ++ v.ticketDigest.bytes ++
    [v.voteType] ++ v.signature.bytes

def FinalityProofV1.serialize (p : FinalityProofV1) : Bytes :=
  [p.version, p.networkId] ++ le64 p.targetHeight ++ p.blockHash.bytes ++ p.parentHash.bytes ++
    le64 p.committeeEpoch ++ le16 p.thresholdNum ++ le16 p.thresholdDen ++ leList 2 p.votes.length ++
    p.votes.flatMap FinalityVoteV1.serialize

def FraudProofV1.serialize (p : FraudProofV1) : Bytes :=
  [p.version, p.kind, p.networkId] ++ le64 p.targetHeight ++ p.offenderPkh.bytes ++ p.reporterPkh.bytes ++
    p.voteA.serialize ++ p.voteB.serialize

variable (C : Crypto) (E : NodeEnv)

/-- The signed part of a vote; the public key stands in it through its hash only. -/
def FinalityVoteV1.digest (v : FinalityVoteV1) : Hash32 :=
  C.sha256 (asciiBytes "IRIUM_POAWX_FINALITY_VOTE_V1" ++ [1, v.networkId] ++ le64 v.targetHeight ++
    v.blockHash.bytes ++ v.parentHash.bytes ++ le64 v.committeeEpoch ++ v.memberPkh.bytes ++
    v.ticketDigest.bytes ++ [v.voteType])

def FinalityVoteV1.verify (v : FinalityVoteV1) (networkId : UInt8) (targetHeight : Nat) (blockHash : Hash32) :
    Except String Unit := do
  failIf (v.version ≠ 1) "finality vote: bad version"
  failIf (v.networkId ≠ networkId) "finality vote: wrong network"
  failIf (v.targetHeight.toNat ≠ targetHeight) "finality vote: wrong height"
  failIf (v.blockHash ≠ blockHash) "finality vote: wrong block hash"
  failIf (FinalityVoteType.fromId v.voteType = none) "finality vote: bad vote type"
  failIf (hash160 C v.memberPubkey.bytes ≠ v.memberPkh) "finality vote: pubkey/pkh mismatch"
  failIf (C.keyFromSec1 v.memberPubkey.bytes = false) "finality vote: bad pubkey"
  failIf (C.sigFromSlice v.signature = false) "finality vote: bad signature encoding"
  failIf (C.verifyPrehash v.memberPubkey.bytes (v.digest C) v.signature = false)
    "finality vote: signature verification failed"

def FinalityProofV1.digest (p : FinalityProofV1) : Hash32 :=
  C.sha256 (asciiBytes "IRIUM_POAWX_FINALITY_PROOF_V1" ++ p.serialize)

def FinalityProofV1.isCanonical (p : FinalityProofV1) : Bool :=
  strictlyIncreasing (p.votes.map fun v => v.memberPkh.toNat)

def ceilDiv (a b : Nat) : Nat := (a + b - 1) / b

def FinalityProofV1.requiredVotes (p : FinalityProofV1) (committeeSize : Nat) : Nat :=
  if committeeSize = 0 then 0
  else
    let needed := ceilDiv (committeeSize * max p.thresholdNum.toNat 1) (max p.thresholdDen.toNat 1)
    min (max needed 1) committeeSize

def FinalityProofV1.checkVote (p : FinalityProofV1) (networkId : UInt8) (targetHeight : Nat) (blockHash : Hash32)
    (committee : List Pkh) (v : FinalityVoteV1) : Except String Unit := do
  v.verify C networkId targetHeight blockHash
  failIf (v.blockHash ≠ blockHash ∨ v.committeeEpoch ≠ p.committeeEpoch) "finality proof: vote context mismatch"
  failIf (v.memberPkh ∉ committee) "finality proof: vote from non-committee member"

def FinalityProofV1.commitVotes (p : FinalityProofV1) : Nat :=
  (p.votes.filter fun v => v.voteType = 1).length

def FinalityProofV1.validate (p : FinalityProofV1) (networkId : UInt8) (targetHeight : Nat) (blockHash : Hash32)
    (committee : List Pkh) : Except String Unit := do
  failIf (p.version ≠ 1) "finality proof: bad version"
  failIf (p.networkId ≠ networkId) "finality proof: wrong network"
  failIf (p.targetHeight.toNat ≠ targetHeight) "finality proof: wrong height"
  failIf (p.blockHash ≠ blockHash) "finality proof: wrong block hash"
  failIf (p.isCanonical = false) "finality proof: not canonical / duplicate member"
  failIf (committee = []) "finality proof: empty committee"
  checkAll (p.checkVote C networkId targetHeight blockHash committee) p.votes
  failIf (p.commitVotes < p.requiredVotes committee.length)
    s!"finality proof: insufficient commit votes {p.commitVotes}/{p.requiredVotes committee.length}"

def verifyFinalityEquivocation (fp : FraudProofV1) (networkId : UInt8) (currentHeight : Nat) :
    Except String Offence := do
  let a := fp.voteA
  let b := fp.voteB
  failIf (currentHeight < fp.targetHeight.toNat) "fraud proof: target height in the future"
  (a.verify C networkId a.targetHeight.toNat a.blockHash).mapError ("fraud proof: vote_a invalid: " ++ ·)
  (b.verify C networkId b.targetHeight.toNat b.blockHash).mapError ("fraud proof: vote_b invalid: " ++ ·)
  failIf (a.memberPkh ≠ b.memberPkh) "fraud proof: votes from different signers"
  failIf (a.memberPkh ≠ fp.offenderPkh) "fraud proof: offender_pkh mismatch"
  failIf (a.targetHeight ≠ b.targetHeight) "fraud proof: vote height mismatch"
  failIf (a.targetHeight ≠ fp.targetHeight) "fraud proof: target height mismatch"
  failIf (a.committeeEpoch ≠ b.committeeEpoch) "fraud proof: committee epoch mismatch"
  failIf (a.voteType ≠ b.voteType) "fraud proof: vote type mismatch"
  failIf (a.blockHash = b.blockHash) "fraud proof: not an equivocation (same block hash)"
  failIf (b.blockHash.toNat ≤ a.blockHash.toNat) "fraud proof: non-canonical vote ordering"
  return (fp.offenderPkh, fp.targetHeight, fp.kind)

def verifyFraudProof (fp : FraudProofV1) (networkId : UInt8) (currentHeight : Nat) : Except String Offence := do
  failIf (networkId = 0) "fraud proof: mainnet hard-off"
  failIf (fp.version ≠ 1) "fraud proof: bad version"
  failIf (fp.networkId ≠ networkId) "fraud proof: wrong network"
  failIf (fp.kind ≠ fraudKindFinalityEquivocation) "fraud proof: unknown/unimplemented kind"
  verifyFinalityEquivocation C fp networkId currentHeight

def finalityThreshold : Nat × Nat :=
  (positiveOr (E.number .finalityThresholdNum) 2, positiveOr (E.number .finalityThresholdDen) 3)

section

variable (height : Nat)

def finalityCommitteeActive : Bool := poawxGate E .finalityCommittee height
def finalityCommitteeEnforced : Bool := poawxEnforced E .finalityCommittee .finalityCommittee height
def fraudProofActive : Bool := poawxGate E .fraudProof height
def fraudProofEnforced : Bool := poawxEnforced E .fraudProof .fraudProof height

end

end IriumConsensus
