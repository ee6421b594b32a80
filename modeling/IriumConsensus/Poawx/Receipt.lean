import Mathlib.Data.List.Sort
import IriumConsensus.Poawx.Finality
import IriumConsensus.Poawx.Proposer
import IriumConsensus.Poawx.Puzzle

namespace IriumConsensus

open ByteCodec Checks

/-- One value for each of the compute, verify and support contributors. -/
structure PerRole (α : Type) where
  compute : α
  verify : α
  support : α
  deriving DecidableEq, Repr

def PerRole.toList {α : Type} (r : PerRole α) : List α := [r.compute, r.verify, r.support]

structure PoawxRoleClaim where
  roleId : UInt8
  laneId : UInt8
  solverPkh : Pkh
  nonce : Hash32
  secret : Hash32
  claimDigest : Hash32
  commitmentHash : Option Hash32
  deriving DecidableEq, Repr

structure AdmissionCommitmentV1 where
  version : UInt8
  networkId : UInt8
  targetHeight : UInt64
  commitHeight : UInt64
  seed : Hash32
  candidateAdmissionRoot : Hash32
  candidateCount : UInt16
  windowId : UInt64
  digest : Hash32
  deriving DecidableEq, Repr

structure DominanceWeights where
  primary : UInt64
  roles : PerRole UInt64
  deriving DecidableEq, Repr

structure Phase20ReceiptExt where
  roleReward : PerRole Pkh
  claims : PerRole PoawxRoleClaim
  feeBps : UInt16
  feePkh : Pkh
  precommitRoot : Option Hash32
  roleTicketProofs : Option (PerRole TicketProof)
  roleDominanceWeights : Option DominanceWeights
  candidateSet : Option CandidateSet
  rolePuzzleProofs : Option (PerRole PuzzleSolutionV1)
  finalityProof : Option FinalityProofV1
  committedAdmission : Option AdmissionCommitmentV1
  roleAssignmentV2 : Option (PerRole AssignmentProofV2)
  fraudProofs : Option (List FraudProofV1)
  proposerAssignment : Option ProposerAssignmentV1
  proposerRegistrations : Option ProposerRegistrationSection
  deriving DecidableEq, Repr

structure Delegation where
  delegVersion : UInt8
  networkId : UInt8
  minerPubkey : PubKey33
  poolPubkey : PubKey33
  workerTag : Hash32
  expiryHeight : UInt64
  feeBps : UInt16
  feePkh : Pkh
  delegNonce : Hash32
  delegationSig : Sig64
  deriving DecidableEq, Repr

structure PoawxBlockReceipt where
  height : UInt64
  lane : UInt8
  workerPkh : Pkh
  workerPubkey : PubKey33
  workerSig : Sig64
  solution : ByteVec 8
  commitmentNonce : Hash32
  delegation : Option Delegation
  phase20Ext : Option Phase20ReceiptExt
  deriving DecidableEq, Repr

def serializeOption {α : Type} (f : α → Bytes) (x : Option α) : Bytes :=
  match x with
  | some a => f a
  | none => []

def PoawxRoleClaim.serialize (c : PoawxRoleClaim) : Bytes :=
  [c.roleId, c.laneId] ++ c.solverPkh.bytes ++ c.nonce.bytes ++ c.secret.bytes ++ c.claimDigest.bytes ++
    match c.commitmentHash with
    | some h => 1 :: h.bytes
    | none => [0]

def AdmissionCommitmentV1.body (a : AdmissionCommitmentV1) : Bytes :=
  [a.version, a.networkId] ++ le64 a.targetHeight ++ le64 a.commitHeight ++ a.seed.bytes ++
    a.candidateAdmissionRoot.bytes ++ le16 a.candidateCount ++ le64 a.windowId

def AdmissionCommitmentV1.serialize (a : AdmissionCommitmentV1) : Bytes := a.body ++ a.digest.bytes

def ProposerRegistrationSection.serialize (s : ProposerRegistrationSection) : Bytes :=
  leList 2 s.announces.length ++ s.announces.flatMap ProposerRegistrationV1.serialize ++
    leList 2 s.activations.length ++ s.activations.flatMap ProposerRegistrationV1.serialize

namespace Phase20ReceiptExt

variable (e : Phase20ReceiptExt)

def hasTrailing : Bool :=
  e.roleTicketProofs.isSome || e.roleDominanceWeights.isSome || e.candidateSet.isSome ||
    e.rolePuzzleProofs.isSome || e.finalityProof.isSome || e.committedAdmission.isSome ||
    e.roleAssignmentV2.isSome || e.fraudProofs.isSome || e.proposerAssignment.isSome ||
    e.proposerRegistrations.isSome

def serializePrecommit : Bytes :=
  match e.precommitRoot with
  | some root => 1 :: root.bytes
  | none => if e.hasTrailing then [0] else []

def serializeSections : Bytes :=
  serializeOption (fun ps => asciiBytes "TPK1" ++ ps.toList.flatMap TicketProof.serialize) e.roleTicketProofs ++
  serializeOption (fun w => asciiBytes "DOM1" ++ le64 w.primary ++ w.roles.toList.flatMap le64)
    e.roleDominanceWeights ++
  serializeOption (fun cs => asciiBytes "CND1" ++ leList 4 cs.serialize.length ++ cs.serialize) e.candidateSet ++
  serializeOption (fun ps => asciiBytes "PZL1" ++ ps.toList.flatMap PuzzleSolutionV1.serialize)
    e.rolePuzzleProofs ++
  serializeOption (fun fp => asciiBytes "FIN1" ++ leList 4 fp.serialize.length ++ fp.serialize) e.finalityProof ++
  serializeOption (fun ca => asciiBytes "CAC1" ++ ca.serialize) e.committedAdmission ++
  serializeOption (fun ps => asciiBytes "AVR2" ++ ps.toList.flatMap AssignmentProofV2.serialize)
    e.roleAssignmentV2 ++
  serializeOption (fun fps => asciiBytes "FRD1" ++ leList 2 fps.length ++ fps.flatMap FraudProofV1.serialize)
    e.fraudProofs ++
  serializeOption (fun pa => asciiBytes "PRP1" ++ pa.serialize) e.proposerAssignment ++
  serializeOption (fun reg => asciiBytes "PRG1" ++ reg.serialize) e.proposerRegistrations

def serialize : Bytes :=
  [1] ++ e.roleReward.toList.flatMap ByteVec.bytes ++
    e.claims.toList.flatMap (fun c => leList 2 c.serialize.length ++ c.serialize) ++
    le16 e.feeBps ++ e.feePkh.bytes ++ e.serializePrecommit ++ e.serializeSections

end Phase20ReceiptExt

def Delegation.body (d : Delegation) : Bytes :=
  [d.delegVersion, d.networkId] ++ d.minerPubkey.bytes ++ d.poolPubkey.bytes ++ d.workerTag.bytes ++
    le64 d.expiryHeight ++ le16 d.feeBps ++ d.feePkh.bytes ++ d.delegNonce.bytes

def Delegation.serialize (d : Delegation) : Bytes := d.body ++ d.delegationSig.bytes

def PoawxBlockReceipt.serialize (r : PoawxBlockReceipt) : Bytes :=
  le64 r.height ++ [r.lane] ++ r.workerPkh.bytes ++ r.workerPubkey.bytes ++ r.workerSig.bytes ++
    r.solution.bytes ++ r.commitmentNonce.bytes

def PoawxBlockReceipt.serializeV2 (r : PoawxBlockReceipt) : Bytes :=
  [if r.delegation.isSome then 1 else 0] ++ r.serialize ++ serializeOption Delegation.serialize r.delegation

def PoawxBlockReceipt.serializeV3 (r : PoawxBlockReceipt) : Bytes :=
  r.serializeV2 ++
    match r.phase20Ext with
    | some e => [1] ++ leList 4 e.serialize.length ++ e.serialize
    | none => [0]

variable (C : Crypto)

def Phase20ReceiptExt.digest (e : Phase20ReceiptExt) : Hash32 := C.sha256 e.serialize

def Delegation.messageHash (d : Delegation) : Hash32 :=
  C.sha256 (asciiBytes "irium.poawx.delegation.v1" ++ d.body)

def Delegation.digest (d : Delegation) : Hash32 := C.sha256 d.serialize

def Delegation.minerPkh (d : Delegation) : Pkh := hash160 C d.minerPubkey.bytes

def Delegation.verifySignature (d : Delegation) : Except String Unit := do
  failIf (C.keyFromSec1 d.minerPubkey.bytes = false) "delegation: invalid miner_pubkey"
  failIf (C.sigFromSlice d.delegationSig = false) "delegation: malformed delegation_sig"
  failIf (C.verifyPrehash d.minerPubkey.bytes (d.messageHash C) d.delegationSig = false)
    "delegation: signature verification failed"

def PoawxBlockReceipt.optionalDigests (r : PoawxBlockReceipt) (phase20Active : Bool) : Bytes :=
  serializeOption (fun d => (d.digest C).bytes) r.delegation ++
    if phase20Active then serializeOption (fun e => (e.digest C).bytes) r.phase20Ext else []

def PoawxBlockReceipt.rootKey (r : PoawxBlockReceipt) : Nat :=
  beNat ((le64 r.height).reverse ++ [r.lane] ++ r.workerPkh.bytes ++ r.commitmentNonce.bytes)

def sortByKey {α : Type} (key : α → Nat) (xs : List α) : List α :=
  xs.insertionSort fun a b => key a ≤ key b

def irx1RootFromBlockReceiptsGated (receipts : List PoawxBlockReceipt) (phase20Active : Bool) : Hash32 :=
  C.sha256 ((sortByKey PoawxBlockReceipt.rootKey receipts).flatMap fun r =>
    (C.sha256 (le64 r.height ++ [r.lane] ++ r.workerPkh.bytes ++ r.solution.bytes ++ r.commitmentNonce.bytes ++
      r.optionalDigests C phase20Active)).bytes)

def irx1RootFromBlockReceiptsAudit (receipts : List PoawxBlockReceipt) (phase20Active auditActive : Bool) :
    Hash32 :=
  if auditActive = false then irx1RootFromBlockReceiptsGated C receipts phase20Active
  else
    C.sha256 ((sortByKey ByteVec.toNat (receipts.map fun r =>
      C.sha256 (r.serialize ++ r.optionalDigests C phase20Active))).flatMap ByteVec.bytes)

end IriumConsensus
