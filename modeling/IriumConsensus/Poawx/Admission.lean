import IriumConsensus.Block

namespace IriumConsensus

open ByteCodec Checks

def maxCommittedCandidates : UInt16 := 4096
def seedEpochLen : Nat := 2016

def admissionEpochSeed (parentPrevHash : Option Hash32) (blockPrevHash : Hash32) : Hash32 :=
  match parentPrevHash with
  | some p => if p ≠ ByteVec.zero 32 then p else blockPrevHash
  | none => blockPrevHash

variable (C : Crypto) (E : NodeEnv)

def AdmissionCommitmentV1.commitmentDigest (a : AdmissionCommitmentV1) : Hash32 :=
  C.sha256 (asciiBytes "IRIUM_POAWX_ADMISSION_COMMITMENT_V1" ++ { a with version := 1 }.body)

def AdmissionCommitmentV1.validate (a : AdmissionCommitmentV1) (networkId : UInt8) (targetHeight : Nat) :
    Except String Unit := do
  failIf (a.version ≠ 1) "admission commitment: bad version"
  failIf (a.networkId ≠ networkId) "admission commitment: wrong network"
  failIf (a.targetHeight.toNat ≠ targetHeight) "admission commitment: wrong target height"
  failIf (a.commitHeight ≠ a.targetHeight ∧ a.commitHeight + 1 ≠ a.targetHeight)
    "admission commitment: commit_height must be target or target-1"
  failIf (maxCommittedCandidates < a.candidateCount) "admission commitment: candidate count over cap"
  failIf (a.commitmentDigest C ≠ a.digest) "admission commitment: digest mismatch"

def AdmissionCommitmentV1.matchesCandidateSet (a : AdmissionCommitmentV1) (cs : CandidateSet) : Bool :=
  cs.root C = a.candidateAdmissionRoot ∧ min cs.candidates.length 0xffff = a.candidateCount.toNat ∧
    cs.seed = a.seed ∧ cs.networkId = a.networkId ∧ cs.targetHeight = a.targetHeight

def multisourceSeedActive (height : Nat) : Bool := poawxGate E .multisourceSeed height

def committedAdmissionEnforced (height : Nat) : Bool :=
  poawxEnforced E .committedAdmission .committedAdmission height

def assignmentSeedV2 (base finalitySigDigest precommitDigest : Hash32) (epochIndex : Nat) : Hash32 :=
  C.sha256 (asciiBytes "IRIUM_POAWX_ASSIGNMENT_SEED_V2" ++ base.bytes ++ finalitySigDigest.bytes ++
    precommitDigest.bytes ++ leList 8 epochIndex)

def seedComponentsFromBlock (b : Option Block) : Hash32 × Hash32 :=
  let ext := do
    let bl ← b
    let r ← bl.receipts.head?
    r.phase20Ext
  (((ext.bind Phase20ReceiptExt.finalityProof).map (FinalityProofV1.digest C)).getD (ByteVec.zero 32),
    (ext.bind Phase20ReceiptExt.precommitRoot).getD (ByteVec.zero 32))

def resolveEpochSeedParts (targetHeight : Nat) (base finalitySigDigest precommitDigest : Hash32) : Hash32 :=
  if multisourceSeedActive E targetHeight = false then base
  else assignmentSeedV2 C base finalitySigDigest precommitDigest (targetHeight / seedEpochLen)

def expectedEpochSeed (targetHeight : Nat) (targetPrevHash : Hash32) (parent : Option Block) : Hash32 :=
  let base := admissionEpochSeed (parent.map fun p => p.header.prevHash) targetPrevHash
  let parts := seedComponentsFromBlock C parent
  resolveEpochSeedParts C E targetHeight base parts.1 parts.2

end IriumConsensus
