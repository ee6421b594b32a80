import IriumConsensus.ChainParams
import IriumConsensus.Lib.Stateful

namespace IriumConsensus

open ByteCodec Checks FinMaps

structure OutPoint where
  txid : Hash32
  index : UInt32
  deriving DecidableEq, Repr

structure UtxoEntry where
  output : TxOutput
  height : Nat
  isCoinbase : Bool
  deriving DecidableEq, Repr

/-- The part of the chain state that transactions read and write. -/
structure Ledger where
  utxos : FinMap OutPoint UtxoEntry
  btc : ForeignView
  ltc : ForeignView
  deriving DecidableEq

def Ledger.view (L : Ledger) : ConsensusView := ⟨L.btc, L.ltc⟩

def Ledger.relay (L : Ledger) : ForeignChain → Relay
  | .btc => L.btc.relay
  | .ltc => L.ltc.relay

def Ledger.setRelay (chain : ForeignChain) (r : Relay) (L : Ledger) : Ledger :=
  match chain with
  | .btc => { L with btc := { L.btc with relay := r } }
  | .ltc => { L with ltc := { L.ltc with relay := r } }

structure BlockUndo where
  spent : List (OutPoint × UtxoEntry)
  created : List OutPoint
  subsidyCreated : Nat
  btcRelayUpdate : Option RelayUpdate
  ltcRelayUpdate : Option RelayUpdate
  claimedAdded : Consumed
  deriving DecidableEq, Repr

def isCoinbase (tx : Transaction) : Bool :=
  match tx.inputs with
  | [inp] => inp.prevTxid = ByteVec.zero 32 ∧ inp.prevIndex = 0xffffffff
  | _ => false

def TxInput.outpoint (inp : TxInput) : OutPoint := ⟨inp.prevTxid, inp.prevIndex⟩

def TxOutput.tag (out : TxOutput) : Option UInt8 := out.scriptPubkey.head?

/-- The value of a 64-bit two's complement number after a wrap-around. -/
def wrapI64 (x : Int) : Int := Int.bmod x (2 ^ 64)

def confirmationsOutOfRange (confirmations : UInt8) : Prop := confirmations < 1 ∨ 144 < confirmations

instance (c : UInt8) : Decidable (confirmationsOutOfRange c) := inferInstanceAs (Decidable (_ ∨ _))

def checkMpsoOutput (C : Crypto) (active : Bool) (out : TxOutput) (height : Nat) : Except String Unit := do
  failIf (active = false) "MPSOv1 output before activation"
  failIf (640 < out.scriptPubkey.length) "MPSOv1 script_pubkey too large"
  let mpso ← orFail (parseMpsoScript out.scriptPubkey) "Malformed MPSOv1 output"
  checkAll (fun pk : PubKey33 => failIf (C.keyFromSec1 pk.bytes = false)
    "MPSOv1 output contains invalid secp256k1 pubkey") (mpso.claimPubkeys ++ mpso.refundPubkeys)
  failIf (mpso.timeoutHeight.toNat ≤ height) "MPSOv1 timeout_height must be greater than current height"

def checkBatchOutput (P : ChainParams) (chain : ForeignChain) (out : TxOutput) (height : Nat) :
    Except String Unit := do
  let name := chain.label ++ "HeaderBatch"
  failIf (P.spvRelayActiveAt chain height = false) (name ++ " output before SPV relay activation")
  failIf (out.value ≠ 0) (name ++ " output must have value 0")
  failIf (chain.maxBatchBytes < out.scriptPubkey.length) (name ++ " script_pubkey too large")
  discard ((chain.parseBatch out.scriptPubkey).mapError (("Malformed " ++ name ++ ": ") ++ ·))

def checkHtlcOutput (active : Bool) (out : TxOutput) : Except String Unit := do
  failIf (active = false) "HTLCv1 output before activation"
  failIf (parseHtlcv1Script out.scriptPubkey = none) "Malformed HTLCv1 output"

def checkSwapOutput (name : String) (active : Bool) (parse : Bytes → Option HtlcSwapOutput) (out : TxOutput)
    (height : Nat) : Except String Unit := do
  failIf (active = false) (name ++ " output before activation")
  failIf (out.scriptPubkey.length ≠ 87) (name ++ " script wrong size")
  let swap ← orFail (parse out.scriptPubkey) ("Malformed " ++ name ++ " output")
  failIf (confirmationsOutOfRange swap.confirmationsRequired)
    (name ++ " confirmations_required out of allowed range")
  failIf (swap.timeoutHeight.toNat ≤ height) (name ++ " timeout_height must exceed current height")

def swapOrderMinLockedValue : UInt64 := 1100

def checkOrderOutput (name : String) (active : Bool) (parse : Bytes → Option SwapOrderOutput) (out : TxOutput)
    (height : Nat) : Except String Unit := do
  failIf (active = false) (name ++ " output before activation")
  failIf (out.scriptPubkey.length ≠ 76 ∧ out.scriptPubkey.length ≠ 108) (name ++ " script wrong size")
  let order ← orFail (parse out.scriptPubkey) ("Malformed " ++ name ++ " output")
  failIf (order.expiryHeight.toNat ≤ height) (name ++ " expiry_height must exceed current height")
  failIf (out.value < swapOrderMinLockedValue) (name ++ " locked value below minimum")
  failIf (order.direction = directionSell ∧ out.value ≠ order.irmAmount)
    ("Sell-IRM " ++ name ++ " output value must equal irm_amount")
  failIf (order.direction = directionSell ∧ confirmationsOutOfRange order.confirmationsRequired)
    (name ++ " confirmations_required out of range")

/-- The tags are pairwise different, so at most one of the source's tag checks applies. -/
def checkTaggedOutput (P : ChainParams) (out : TxOutput) (height : Nat) : Except String Unit :=
  let flags := P.spendFlagsAt height
  if out.tag = some htlcV1ScriptTag then checkHtlcOutput flags.htlcv1 out
  else if out.tag = some htlcBtcSwapV1Tag then
    checkSwapOutput "HtlcBtcSwapV1" flags.htlcBtcSwapV1 parseHtlcBtcSwapV1Script out height
  else if out.tag = some htlcLtcSwapV1Tag then
    checkSwapOutput "HtlcLtcSwapV1" flags.htlcLtcSwapV1 parseHtlcLtcSwapV1Script out height
  else if out.tag = some swapOrderV1Tag then
    checkOrderOutput "SwapOrder" flags.swapOrderV1 parseSwapOrderScript out height
  else if out.tag = some ltcSwapOrderV1Tag then
    checkOrderOutput "LtcSwapOrder" flags.ltcSwapOrderV1 parseLtcSwapOrderScript out height
  else .ok ()

variable (C : Crypto) (E : NodeEnv) (P : ChainParams)

def validateOutput (out : TxOutput) (height : Nat) : Except String Unit := do
  failIf (maxMoney < out.value.toNat) "Output value out of range"
  if out.tag = some mpsoV1Tag then checkMpsoOutput C (P.spendFlagsAt height).mpsov1 out height
  else if out.tag = some btcHeaderBatchTag then checkBatchOutput P .btc out height
  else if out.tag = some ltcHeaderBatchTag then checkBatchOutput P .ltc out height
  else
    failIf (0xff < out.scriptPubkey.length) "script_pubkey too large"
    checkTaggedOutput P out height

/-- What the inputs of a block have used up so far. -/
structure TxAcc where
  seen : List OutPoint
  fees : Int
  consumed : Consumed
  deriving DecidableEq, Repr

def checkInput (L : Ledger) (height : Nat) (tx : Transaction) (inputIndex : Nat) (txin : TxInput)
    (seen : List OutPoint) (consumed : Consumed) : Except String (Consumed × UtxoEntry) := do
  failIf (txin.outpoint ∈ seen) "Transaction input double spent within block"
  let entry ← orFail (L.utxos.lookup txin.outpoint) "Referenced UTXO is missing"
  failIf (entry.isCoinbase ∧ height - entry.height < coinbaseMaturity E) "Coinbase UTXO not mature"
  let consumed ← orFail (verifyTransactionSignature C tx inputIndex txin entry.output height
    (P.spendFlagsAt height) L.view consumed) "Transaction signature verification failed"
  return (consumed, entry)

/-- The loop over the inputs from index `i` on; it also sums their values. -/
def checkInputs (L : Ledger) (height : Nat) (tx : Transaction) :
    Nat → List TxInput → List OutPoint → Consumed → Int → Except String (List OutPoint × Consumed × Int)
  | _, [], seen, consumed, total => .ok (seen, consumed, total)
  | i, txin :: rest, seen, consumed, total => do
    let found ← checkInput C E P L height tx i txin seen consumed
    checkInputs L height tx (i + 1) rest (seen ++ [txin.outpoint]) found.1
      (wrapI64 (total + wrapI64 found.2.output.value.toNat))

def outputTotal (outputs : List TxOutput) : Int :=
  outputs.foldl (fun total out => wrapI64 (total + wrapI64 out.value.toNat)) 0

def validateTransactionInternal (L : Ledger) (tx : Transaction) (height : Nat) (acc : TxAcc) :
    Except String TxAcc := do
  let spent ← checkInputs C E P L height tx 0 tx.inputs acc.seen acc.consumed 0
  checkAll (fun out => validateOutput C P out height) tx.outputs
  failIf (spent.2.2 < outputTotal tx.outputs) "Transaction spends more than available inputs"
  let fees := wrapI64 (acc.fees + wrapI64 (spent.2.2 - outputTotal tx.outputs))
  failIf (fees < 0 ∨ (maxMoney : Int) < fees) "Fee accounting overflow"
  return ⟨spent.1, fees, spent.2.1⟩

end IriumConsensus
