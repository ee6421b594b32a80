import IriumConsensus.Block
import IriumConsensus.Spend

namespace IriumConsensus

open ByteCodec

structure LwmaParams where
  activationHeight : Option Nat
  window : Nat
  minSolvetime : Nat
  solvetimeClampFactor : Nat
  maxTargetUpFactor : Nat
  maxTargetDownFactor : Nat
  maxTarget : Target
  deriving DecidableEq, Repr

def lwmaMinDifficultyFloor : Nat := 1

def LwmaParams.new (activationHeight : Option Nat) (powLimit : Target) : LwmaParams :=
  ⟨activationHeight, 60, 1, 6, 2, 2, minDifficultyTarget powLimit lwmaMinDifficultyFloor⟩

def LwmaParams.newV2 (activationHeight : Option Nat) (powLimit : Target) : LwmaParams :=
  ⟨activationHeight, 30, 1, 10, 2, 2, minDifficultyTarget powLimit lwmaMinDifficultyFloor⟩

def LwmaParams.maxSolvetimeAt (E : NodeEnv) (p : LwmaParams) (targetHeight : Nat) : Nat :=
  min (p.solvetimeClampFactor * blockTargetInterval E targetHeight) u64Max

/-- `BtcSpvParams` and `LtcSpvParams`; Bitcoin's retarget rule is fixed. -/
structure SpvParams where
  activationHeight : Nat
  anchor : Anchor
  retarget : RetargetParams
  deriving DecidableEq, Repr

structure ChainParams where
  genesisBlock : Block
  powLimit : Target
  htlcv1ActivationHeight : Option Nat
  mpsov1ActivationHeight : Option Nat
  lwma : LwmaParams
  lwmaV2 : Option LwmaParams
  auxpowActivationHeight : Option Nat
  btcSpv : Option SpvParams
  ltcSpv : Option SpvParams
  htlcBtcSwapV1ActivationHeight : Option Nat
  btcSwapBech32PaymentActivationHeight : Option Nat
  htlcLtcSwapV1ActivationHeight : Option Nat
  swapOrderV1ActivationHeight : Option Nat
  ltcSwapOrderV1ActivationHeight : Option Nat
  coinbaseHeaderBatchActivationHeight : Option Nat
  deriving DecidableEq, Repr

inductive ForeignChain where
  | btc
  | ltc
  deriving DecidableEq, Repr

def ForeignChain.label : ForeignChain → String
  | .btc => "Btc"
  | .ltc => "Ltc"

def ForeignChain.parseBatch : ForeignChain → Bytes → Except String (List ForeignHeader)
  | .btc => parseBtcHeaderBatch
  | .ltc => parseLtcHeaderBatch

def ForeignChain.maxBatchBytes : ForeignChain → Nat
  | .btc => 4 + 80 * maxBtcHeadersPerBatch
  | .ltc => 4 + 80 * maxLtcHeadersPerBatch

def ForeignChain.relayError : ForeignChain → RelayError → String
  | .btc => RelayError.message "btc"
  | .ltc => RelayError.message "ltc"

namespace ChainParams

variable (P : ChainParams)

def spv : ForeignChain → Option SpvParams
  | .btc => P.btcSpv
  | .ltc => P.ltcSpv

def spvRelayActiveAt (chain : ForeignChain) (height : Nat) : Bool :=
  activeFrom ((P.spv chain).map SpvParams.activationHeight) height

def spvAnchor (chain : ForeignChain) : Anchor := ((P.spv chain).map SpvParams.anchor).getD Anchor.zero

def ltcRetargetParams : RetargetParams := (P.ltcSpv.map SpvParams.retarget).getD litecoinRetarget

def coinbaseHeaderBatchActiveAt (height : Nat) : Bool :=
  activeFrom P.coinbaseHeaderBatchActivationHeight height

def spendFlagsAt (height : Nat) : SpendFlags where
  htlcv1 := activeFrom P.htlcv1ActivationHeight height
  mpsov1 := activeFrom P.mpsov1ActivationHeight height
  htlcBtcSwapV1 := activeFrom P.htlcBtcSwapV1ActivationHeight height
  btcSwapBech32Payment := activeFrom P.btcSwapBech32PaymentActivationHeight height
  htlcLtcSwapV1 := activeFrom P.htlcLtcSwapV1ActivationHeight height
  swapOrderV1 := activeFrom P.swapOrderV1ActivationHeight height
  ltcSwapOrderV1 := activeFrom P.ltcSwapOrderV1ActivationHeight height

def applyHeaderBatch (C : Crypto) (chain : ForeignChain) (headers : List ForeignHeader) (blockTime : UInt32)
    (r : Relay) : Except RelayError (RelayUpdate × Relay) :=
  match chain with
  | .btc => applyBtcHeaderBatch C headers blockTime r (P.spvAnchor .btc)
  | .ltc => applyLtcHeaderBatch C headers blockTime r (P.spvAnchor .ltc) P.ltcRetargetParams

end ChainParams

end IriumConsensus
