import Mathlib.Data.Nat.Basic

namespace IriumConsensus

inductive NetworkKind where
  | mainnet
  | testnet
  | devnet
  deriving DecidableEq, Repr

def NetworkKind.idByte : NetworkKind → UInt8
  | .mainnet => 0
  | .testnet => 1
  | .devnet => 2

/-- What the variable `IRIUM_NETWORK` holds, up to what the code distinguishes: `devnet` is
the exact text `devnet` or `regtest`, `devnetAlias` is `trial` or another spelling of those. -/
inductive NetworkVar where
  | mainnet
  | testnet
  | devnet
  | devnetAlias
  deriving DecidableEq, Repr

def NetworkVar.kind : NetworkVar → NetworkKind
  | .mainnet => .mainnet
  | .testnet => .testnet
  | .devnet | .devnetAlias => .devnet

/-- The variables `IRIUM_*_ACTIVATION_HEIGHT`. -/
inductive ActivationVar where
  | htlcv1
  | mpsov1
  | lwma
  | lwmaV2
  | auxpow
  | blockTimeV2
  | btcSpvRelay
  | ltcSpvRelay
  | htlcBtcSwapV1
  | htlcLtcSwapV1
  | swapOrderV1
  | ltcSwapOrderV1
  | btcSwapBech32Payment
  | coinbaseHeaderBatch
  | poawx
  | delegation
  | multiRoleReward
  | fairnessMatrix
  | thirdPartyFee
  | hiddenPrecommit
  | adaptiveMode
  | candidateAdmission
  | candidateSet
  | assignmentProof
  | trueVrf
  | fraudProof
  | multisourceSeed
  | committedAdmission
  | antiDomination
  | finalityCommittee
  | penaltyState
  | proposerVrf
  | proposerRegistration
  | forkChoiceHardening
  | auditHardening
  | puzzleWork
  | tickets
  deriving DecidableEq, Repr

/-- The variables `IRIUM_POAWX_*_REQUIRED`, read as `= "1"`. -/
inductive RequiredVar where
  | candidateAdmission
  | candidateSet
  | assignmentProof
  | trueVrf
  | fraudProof
  | committedAdmission
  | antiDomination
  | finalityCommittee
  | penaltyState
  | proposerVrf
  | puzzleWork
  | tickets
  deriving DecidableEq, Repr

/-- The other numeric variables that reach consensus code. -/
inductive NumericVar where
  | coinbaseMaturity
  | headerCacheWindow
  | blockStoreWindow
  | puzzleDifficultyBits
  | puzzleBits
  | ticketSybilBits
  | antiDominationWindow
  | antiDominationLookback
  | finalityThresholdNum
  | finalityThresholdDen
  | candidateAdmissionWindow
  | committedAdmissionWindow
  | proposerFreezeDepth
  | proposerRoundIntervalSecs
  | proposerAntispamBits
  | proposerExpiryWindow
  | maxReorgDepth
  | minFinalityCommittee
  deriving DecidableEq, Repr

/-- The process environment, each variable as the code parses it. -/
structure NodeEnv where
  network : NetworkVar
  activationHeight : ActivationVar → Option Nat
  required : RequiredVar → Bool
  number : NumericVar → Option Nat
  /-- `IRIUM_POAWX_MODE` is `active`. -/
  poawxModeActive : Bool
  /-- `IRIUM_POAWX_THIRD_PARTY_POOL_MODE` is switched on. -/
  thirdPartyPoolMode : Bool
  /-- The once-set `RESOLVED_STD_HEADER_ACTIVATION`. -/
  standardHeaderActivationHeight : Nat

variable (E : NodeEnv) {height : Nat}

def networkKind : NetworkKind := E.network.kind
def networkIdByte : UInt8 := (networkKind E).idByte

theorem networkIdByte_eq_zero_iff : networkIdByte E = 0 ↔ networkKind E = .mainnet := by
  unfold networkIdByte
  cases networkKind E <;> decide

def mainnetPoawxActivationHeight : Option Nat := some 50000

/-- `matches!(activation, Some(h) if height >= h)`. -/
def activeFrom (activation : Option Nat) (height : Nat) : Bool :=
  match activation with
  | some h => decide (h ≤ height)
  | none => false

def poawxEffectiveActivation (networkId : UInt8) (envActivation : Option Nat) : Option Nat :=
  if networkId = 0 then mainnetPoawxActivationHeight else envActivation

def poawxConsensusActive (height : Nat) : Bool :=
  if networkIdByte E = 0 then activeFrom mainnetPoawxActivationHeight height
  else if E.poawxModeActive = false then false
  else activeFrom (E.activationHeight .poawx) height

/-- The common shape of the PoAW-X gates: mainnet uses the built-in height. -/
def poawxGate (activation : ActivationVar) (height : Nat) : Bool :=
  activeFrom (poawxEffectiveActivation (networkIdByte E) (E.activationHeight activation)) height

/-- The common shape of the `*_required` flags: always on for mainnet. -/
def poawxRequired (v : RequiredVar) : Bool :=
  if networkIdByte E = 0 then true else E.required v

def poawxEnforced (activation : ActivationVar) (v : RequiredVar) (height : Nat) : Bool :=
  poawxGate E activation height && poawxRequired E v

theorem poawxGate_mainnet {E : NodeEnv} (hm : networkKind E = .mainnet) (activation : ActivationVar)
    (hh : 50000 ≤ height) : poawxGate E activation height := by
  have h0 := (networkIdByte_eq_zero_iff E).mpr hm
  simp [poawxGate, poawxEffectiveActivation, h0, activeFrom, mainnetPoawxActivationHeight, hh]

theorem poawxRequired_mainnet {E : NodeEnv} (hm : networkKind E = .mainnet) (v : RequiredVar) :
    poawxRequired E v := by
  simp [poawxRequired, (networkIdByte_eq_zero_iff E).mpr hm]

theorem poawxEnforced_mainnet {E : NodeEnv} (hm : networkKind E = .mainnet) (activation : ActivationVar)
    (v : RequiredVar) (hh : 50000 ≤ height) : poawxEnforced E activation v height := by
  simp [poawxEnforced, poawxGate_mainnet hm activation hh, poawxRequired_mainnet hm v]

theorem poawxConsensusActive_mainnet {E : NodeEnv} (hm : networkKind E = .mainnet) (hh : 50000 ≤ height) :
    poawxConsensusActive E height := by
  have h0 := (networkIdByte_eq_zero_iff E).mpr hm
  simp [poawxConsensusActive, h0, activeFrom, mainnetPoawxActivationHeight, hh]

def maxMoney : Nat := 100000000 * 100000000
def blockTargetIntervalV1 : Nat := 600
def blockTargetIntervalV2 : Nat := 120
def difficultyRetargetInterval : Nat := 2016
def maxFutureBlockTime : Int := 7200
def mtpActivationHeight : Nat := 32000
def initialSubsidy : Nat := 50 * 100000000
def halvingIntervalV1 : Nat := 210000
def halvingIntervalV2 : Nat := 1050000

def resolvedBlockTimeV2ForkHeight : Option Nat :=
  match networkKind E with
  | .mainnet => some 24250
  | .testnet | .devnet => E.activationHeight .blockTimeV2

def blockTargetInterval (height : Nat) : Nat :=
  if activeFrom (resolvedBlockTimeV2ForkHeight E) height then blockTargetIntervalV2
  else blockTargetIntervalV1

def halvingCount (height : Nat) : Nat :=
  if height = 0 then 0 else
    match resolvedBlockTimeV2ForkHeight E with
    | some fork =>
      if fork < height then
        (if fork = 0 then 0 else (fork - 1) / halvingIntervalV1) +
          (height - fork - 1) / halvingIntervalV2
      else (height - 1) / halvingIntervalV1
    | none => (height - 1) / halvingIntervalV1

def blockReward (height : Nat) : Nat :=
  if height = 0 then 0
  else if 64 ≤ halvingCount E height then 0
  else initialSubsidy >>> halvingCount E height

theorem blockReward_le (height : Nat) : blockReward E height ≤ initialSubsidy := by
  unfold blockReward
  split
  next => exact Nat.zero_le _
  next =>
    split
    next => exact Nat.zero_le _
    next => rw [Nat.shiftRight_eq_div_pow]; exact Nat.div_le_self _ _

def coinbaseMaturity : Nat :=
  match E.network with
  | .devnet => (E.number .coinbaseMaturity).getD 5
  | _ => 100

end IriumConsensus
