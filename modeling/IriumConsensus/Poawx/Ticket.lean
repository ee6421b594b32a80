import IriumConsensus.Poawx.Candidate

namespace IriumConsensus

open ByteCodec Checks

structure TicketProof where
  networkId : UInt8
  targetHeight : UInt64
  roleId : UInt8
  minerPkh : Pkh
  epoch : UInt64
  expiryHeight : UInt64
  assignmentPublicKey : PubKey33
  sybilWorkNonce : Hash32
  sybilWorkDigest : Hash32
  penaltyStatus : UInt8
  ticketDigest : Hash32
  deriving DecidableEq, Repr

def ticketProofWire : Nat := 176
def roleComputeContributor : UInt8 := 1
def roleVerifyContributor : UInt8 := 2
def roleSupportContributor : UInt8 := 3

def TicketProof.serialize (t : TicketProof) : Bytes :=
  [t.networkId] ++ le64 t.targetHeight ++ [t.roleId] ++ t.minerPkh.bytes ++ le64 t.epoch ++
    le64 t.expiryHeight ++ t.assignmentPublicKey.bytes ++ t.sybilWorkNonce.bytes ++
    t.sybilWorkDigest.bytes ++ [t.penaltyStatus] ++ t.ticketDigest.bytes

def byteLeadingZeros (b : UInt8) : Nat := if b = 0 then 8 else 7 - Nat.log2 b.toNat

def leadingZeroBitsOf : Bytes → Nat
  | [] => 0
  | b :: rest => if b = 0 then 8 + leadingZeroBitsOf rest else byteLeadingZeros b

def leadingZeroBits (d : Hash32) : Nat := leadingZeroBitsOf d.bytes

def meetsSybilTarget (digest : Hash32) (bits : Nat) : Bool := bits ≤ leadingZeroBits digest

variable (C : Crypto) (E : NodeEnv)

def computeSybilDigest (networkId : UInt8) (prevHash : Hash32) (minerPkh : Pkh) (epoch : UInt64)
    (assignmentPublicKey : PubKey33) (nonce : Hash32) : Hash32 :=
  C.sha256 (asciiBytes "IRIUM_POAWX_SYBIL_WORK_V1" ++ [networkId] ++ prevHash.bytes ++ minerPkh.bytes ++
    le64 epoch ++ assignmentPublicKey.bytes ++ nonce.bytes)

def TicketProof.computeDigest (t : TicketProof) : Hash32 :=
  C.sha256 (asciiBytes "IRIUM_POAWX_TICKET_PROOF_V1" ++ [t.networkId] ++ le64 t.targetHeight ++ [t.roleId] ++
    t.minerPkh.bytes ++ le64 t.epoch ++ le64 t.expiryHeight ++ t.assignmentPublicKey.bytes ++
    t.sybilWorkDigest.bytes)

def ticketsActive (height : Nat) : Bool := poawxGate E .tickets height
def ticketsRequired : Bool := poawxRequired E .tickets
def ticketsEnforced (height : Nat) : Bool := poawxEnforced E .tickets .tickets height

def sybilThresholdBits : Nat :=
  if networkIdByte E = 0 then 0
  else ((E.number .ticketSybilBits).filter fun b => decide (b ≤ 32)).getD 0

def effectiveSybilBits : Nat :=
  if networkIdByte E = 0 then 20
  else if ticketsRequired E then max (sybilThresholdBits E) 8
  else sybilThresholdBits E

def isHighTrustRole (roleId : UInt8) : Bool :=
  roleId = roleVerifyContributor ∨ roleId = roleSupportContributor

def TicketProof.validate (t : TicketProof) (expectedNetwork : UInt8) (height : Nat) (prevHash : Hash32)
    (roleId : UInt8) (roleSolverPkh : Pkh) (requireSybilBits : Nat) (penaltyEnforced : Bool) :
    Except String Unit := do
  failIf (expectedNetwork = 0) "ticket proof: mainnet hard-off"
  failIf (t.networkId ≠ expectedNetwork) "ticket proof: network mismatch"
  failIf (t.targetHeight.toNat ≠ height) "ticket proof: height mismatch"
  failIf (auditHardeningActive E height ∧ t.epoch ≠ t.targetHeight)
    "ticket proof: epoch not bound to height (audit)"
  failIf (t.roleId ≠ roleId) "ticket proof: role mismatch"
  failIf (t.minerPkh ≠ roleSolverPkh) "ticket proof: miner pkh != role solver"
  failIf (t.expiryHeight.toNat ≤ height) "ticket proof: expired"
  failIf (computeSybilDigest C t.networkId prevHash t.minerPkh t.epoch t.assignmentPublicKey t.sybilWorkNonce ≠
    t.sybilWorkDigest) "ticket proof: sybil digest mismatch"
  failIf (0 < requireSybilBits ∧ meetsSybilTarget t.sybilWorkDigest requireSybilBits = false)
    "ticket proof: insufficient sybil work"
  failIf (t.computeDigest C ≠ t.ticketDigest) "ticket proof: ticket_digest mismatch"
  let pen ← orFail (PenaltyStatus.fromId t.penaltyStatus) "ticket proof: bad penalty status"
  failIf (penaltyEnforced ∧ isHighTrustRole roleId ∧ pen.eligibleForHighTrustRole = false)
    "ticket proof: penalized identity ineligible for high-trust role"

end IriumConsensus
