import IriumConsensus.Poawx.Dominance
import IriumConsensus.Poawx.Ticket

namespace IriumConsensus

open ByteCodec Checks FinMaps

structure ProposerAssignmentV1 where
  round : UInt32
  proof : AssignmentProofV2
  deriving DecidableEq, Repr

structure ProposerRegistrationV1 where
  vrfPubkey : PubKey33
  anchorHeight : UInt64
  sybilNonce : Hash32
  sybilDigest : Hash32
  signature : Sig64
  deriving DecidableEq, Repr

structure ProposerRegistrationSection where
  announces : List ProposerRegistrationV1
  activations : List ProposerRegistrationV1
  deriving DecidableEq, Repr

def proposerRegCap : Nat := 8
def proposerAnnounceCap : Nat := 8
def proposerRegAnchorWindow : Nat := 64
def proposerAssignmentV1Wire : Nat := 277
def proposerRegistrationV1Wire : Nat := 169

def ProposerAssignmentV1.serialize (a : ProposerAssignmentV1) : Bytes := le32 a.round ++ a.proof.serialize

def ProposerRegistrationV1.body (r : ProposerRegistrationV1) : Bytes :=
  r.vrfPubkey.bytes ++ le64 r.anchorHeight ++ r.sybilNonce.bytes ++ r.sybilDigest.bytes

def ProposerRegistrationV1.serialize (r : ProposerRegistrationV1) : Bytes := r.body ++ r.signature.bytes

def cumulativeSlots (round eligibleCount : Nat) : Nat :=
  let cum := match round with
    | 0 => 1
    | 1 => 4
    | 2 => 14
    | _ => u64Max
  min cum (max eligibleCount 1)

def proposerPriority (vrfOutput : Hash32) : Nat := assignmentV2ScoreFromOutput vrfOutput

def proposerThreshold (eligibleCount round : Nat) : Nat :=
  let n := max eligibleCount 1
  let slots := cumulativeSlots round n
  if n ≤ slots then u64Max else min (u64Max / n * slots) u64Max

def minTimeForRound (parentTime round roundIntervalSecs : Nat) : Nat :=
  min (parentTime + min (round * roundIntervalSecs) u32Max) u32Max

def registrationAnchorValid (anchorHeight height window : Nat) : Bool :=
  decide (anchorHeight < height) && !(decide (window < height) && decide (anchorHeight < height - window))

variable (C : Crypto) (E : NodeEnv)

def ProposerRegistrationV1.pkh (r : ProposerRegistrationV1) : Pkh := hash160 C r.vrfPubkey.bytes

def ProposerRegistrationV1.signingDigest (r : ProposerRegistrationV1) (networkId : UInt8) : Hash32 :=
  C.sha256 (asciiBytes "IRIUM_POAWX_PROPOSER_REG_V1" ++ [networkId] ++ r.body)

def ProposerRegistrationV1.validate (r : ProposerRegistrationV1) (networkId : UInt8) (anchorHash : Hash32)
    (requiredBits : Nat) : Except String Unit := do
  failIf (r.sybilDigest ≠ computeSybilDigest C networkId anchorHash (r.pkh C) r.anchorHeight r.vrfPubkey
    r.sybilNonce) "registration: sybil_digest mismatch"
  failIf (meetsSybilTarget r.sybilDigest requiredBits = false) "registration: insufficient sybil work"
  failIf (C.keyFromSec1 r.vrfPubkey.bytes = false) "registration: invalid vrf_pubkey"
  failIf (C.sigFromSlice r.signature = false) "registration: malformed signature"
  failIf (C.verifyPrehash r.vrfPubkey.bytes (r.signingDigest C networkId) r.signature = false)
    "registration: signature verification failed"

def proposerFreezeDepth : Nat := max ((E.number .proposerFreezeDepth).getD 16) 2

def proposerRoundIntervalSecs : Nat := max ((E.number .proposerRoundIntervalSecs).getD 120) 1

def proposerAntiSpamBits : Nat :=
  if networkIdByte E = 0 then 20 else (E.number .proposerAntispamBits).getD 8

def proposerExpiryWindow : Nat := max ((E.number .proposerExpiryWindow).getD 2016) 1

def maxReorgDepth : Nat :=
  max ((E.number .maxReorgDepth).getD (if networkIdByte E = 0 then 1000 else 100)) 10

def minFinalityCommittee : Nat :=
  max ((E.number .minFinalityCommittee).getD (if networkIdByte E = 0 then 16 else 4)) 1

def proposerVrfActive (height : Nat) : Bool := poawxGate E .proposerVrf height

def proposerVrfEnforced (height : Nat) : Bool := poawxEnforced E .proposerVrf .proposerVrf height

def proposerRegistrationActive (height : Nat) : Bool :=
  proposerVrfActive E height && poawxGate E .proposerRegistration height

def forkChoiceHardeningActive (height : Nat) : Bool := poawxGate E .forkChoiceHardening height

def effectivePuzzleDifficultyBits (configured height : Nat) : Nat :=
  if proposerVrfEnforced E height then min configured (proposerAntiSpamBits E) else configured

structure ProposerKeyRecord where
  pkh : Pkh := ByteVec.zero 20
  heights : Finset Nat := ∅
  deriving DecidableEq

/-- The keys that blocks have registered, with the heights at which they did. -/
structure ProposerEligibilityRegistry where
  keys : FinMap PubKey33 ProposerKeyRecord := ∅
  deriving DecidableEq

namespace ProposerEligibilityRegistry

variable (g : ProposerEligibilityRegistry)

def register (vrfPubkey : PubKey33) (pkh : Pkh) (height : Nat) : ProposerEligibilityRegistry :=
  let heights := ((g.keys.lookup vrfPubkey).getD {}).heights
  ⟨g.keys.insert vrfPubkey ⟨pkh, insert height heights⟩⟩

def unregister (vrfPubkey : PubKey33) (height : Nat) : ProposerEligibilityRegistry :=
  match g.keys.lookup vrfPubkey with
  | some rec =>
    if rec.heights.erase height = ∅ then ⟨g.keys.erase vrfPubkey⟩
    else ⟨g.keys.insert vrfPubkey { rec with heights := rec.heights.erase height }⟩
  | none => g

def frozenWindow (targetHeight : Nat) : Option (Nat × Nat) :=
  if targetHeight < proposerFreezeDepth E then none
  else
    let hi := targetHeight - proposerFreezeDepth E
    some (hi - (proposerExpiryWindow E - 1), hi)

def recordInWindow (rec : ProposerKeyRecord) (window : Nat × Nat) : Bool :=
  decide (∃ h ∈ rec.heights, window.1 ≤ h ∧ h ≤ window.2)

def eligibleCount (targetHeight : Nat) : Nat :=
  match frozenWindow E targetHeight with
  | none => 0
  | some w => total (fun rec => if recordInWindow rec w then 1 else 0) g.keys

def isEligible (vrfPubkey : PubKey33) (targetHeight : Nat) : Bool :=
  match frozenWindow E targetHeight with
  | none => false
  | some w => (g.keys.lookup vrfPubkey).any fun rec => recordInWindow rec w

/-- The same two questions for a given freeze depth and expiry window. -/
def frozenWindowWith (fd ew targetHeight : Nat) : Option (Nat × Nat) :=
  if targetHeight < fd then none
  else
    let hi := targetHeight - fd
    some (hi - (ew - 1), hi)

def eligibleCountWith (targetHeight fd ew : Nat) : Nat :=
  match frozenWindowWith fd ew targetHeight with
  | none => 0
  | some w => total (fun rec => if recordInWindow rec w then 1 else 0) g.keys

def isEligibleWith (vrfPubkey : PubKey33) (targetHeight fd ew : Nat) : Bool :=
  match frozenWindowWith fd ew targetHeight with
  | none => false
  | some w => (g.keys.lookup vrfPubkey).any fun rec => recordInWindow rec w

def isRegistered (vrfPubkey : PubKey33) : Bool := (g.keys.lookup vrfPubkey).isSome

end ProposerEligibilityRegistry

end IriumConsensus
