import IriumConsensus.AuxPow
import IriumConsensus.ForeignTx
import IriumConsensus.Relay
import IriumConsensus.Witness

namespace IriumConsensus

open ByteCodec

structure SpendFlags where
  htlcv1 : Bool
  mpsov1 : Bool
  htlcBtcSwapV1 : Bool
  btcSwapBech32Payment : Bool
  htlcLtcSwapV1 : Bool
  swapOrderV1 : Bool
  ltcSwapOrderV1 : Bool
  deriving DecidableEq, Repr

/-- A foreign transaction id with the index of its binding output. -/
abbrev ForeignOutpoint := Hash32 × UInt32

/-- One foreign chain as a spend sees it: the relay and the outpoints already claimed. -/
structure ForeignView where
  relay : Relay
  claimed : Finset ForeignOutpoint
  deriving DecidableEq

structure ConsensusView where
  btc : ForeignView
  ltc : ForeignView
  deriving DecidableEq

/-- The foreign outpoints that earlier inputs of the same block have claimed. -/
structure Consumed where
  btc : List ForeignOutpoint
  ltc : List ForeignOutpoint
  deriving DecidableEq, Repr

def mpsoV1MaxWitnessSize : Nat := 768
def btcOpReturnBindingMagic : Bytes := [0x69, 0x72, 0x6d, 0x73, 0x77, 0x70]
def ltcOpReturnBindingMagic : Bytes := [0x69, 0x72, 0x6d, 0x6c, 0x73, 0x77]
def swapOrderMaxSweepFee : Nat := 1000

variable (C : Crypto)

def signatureDigest (tx : Transaction) (inputIndex : Nat) (script : Bytes) : Hash32 :=
  let inputs := tx.inputs.mapIdx fun idx inp =>
    { inp with scriptSig := if idx = inputIndex then script else [] }
  sha256d C (({ tx with inputs } : Transaction).serialize ++ le32 1)

def verifySigWithPubkey (tx : Transaction) (inputIndex : Nat) (script sig pubkey : Bytes) : Bool :=
  if sig.length < 2 ∨ sig.getLast? ≠ some 0x01 then false
  else if ¬(pubkey.length = 33 ∨ pubkey.length = 65) then false
  else if tx.inputs.length ≤ inputIndex then false
  else match C.sigFromDer sig.dropLast with
    | none => false
    | some signature =>
      if C.sigHighS signature then false
      else if C.keyFromSec1 pubkey = false then false
      else C.verifyPrehash pubkey (signatureDigest C tx inputIndex script) signature

def verifyP2pkhSpend (tx : Transaction) (inputIndex : Nat) (scriptSig script : Bytes) (pkh : Pkh) : Bool :=
  match parseInputWitness scriptSig with
  | .p2pkh sig pubkey =>
    if hash160 C pubkey ≠ pkh then false else verifySigWithPubkey C tx inputIndex script sig pubkey
  | _ => false

def verifyHtlcSpend (tx : Transaction) (inputIndex : Nat) (scriptSig : Bytes) (height : Nat)
    (htlc : HtlcV1Output) : Bool :=
  match parseInputWitness scriptSig with
  | .htlcClaim sig pubkey preimage =>
    if preimage = [] ∨ 64 < preimage.length then false
    else if C.sha256 preimage ≠ htlc.expectedHash then false
    else if hash160 C pubkey ≠ htlc.recipientPkh then false
    else verifySigWithPubkey C tx inputIndex (encodeHtlcv1Script htlc) sig pubkey
  | .htlcRefund sig pubkey =>
    if height < htlc.timeoutHeight.toNat then false
    else if hash160 C pubkey ≠ htlc.refundPkh then false
    else verifySigWithPubkey C tx inputIndex (encodeHtlcv1Script htlc) sig pubkey
  | _ => false

/-- `bitmap & (1u8 << i) != 0`. -/
def bitSet (bitmap : UInt8) (i : Nat) : Bool := bitmap &&& (1 <<< UInt8.ofNat i) != 0

def countOnes (bitmap : UInt8) : Nat := ((List.range 8).filter (bitSet bitmap)).length

def validMask (n : UInt8) : UInt8 := if n = 8 then 0xff else (1 <<< n) - 1

/-- One signature for each key whose bit is set, in key order; what follows them is returned. -/
def checkMpsoSigs (tx : Transaction) (inputIndex : Nat) (scriptcode : Bytes) (bitmap : UInt8) :
    Nat → List PubKey33 → Bytes → Option Bytes
  | _, [], rest => some rest
  | i, pk :: pks, rest =>
    if bitSet bitmap i = false then checkMpsoSigs tx inputIndex scriptcode bitmap (i + 1) pks rest
    else match readChunk rest with
      | .error _ => none
      | .ok (sig, rest) =>
        if verifySigWithPubkey C tx inputIndex scriptcode sig pk.bytes then
          checkMpsoSigs tx inputIndex scriptcode bitmap (i + 1) pks rest
        else none

/-- The `m`-of-`n` part of a witness: a bitmap with `m` of the `n` lowest bits and the signatures. -/
def checkMofN (tx : Transaction) (inputIndex : Nat) (scriptcode : Bytes) (n m : UInt8)
    (pubkeys : List PubKey33) : Bytes → Option Bytes
  | [] => none
  | bitmap :: rest =>
    if bitmap &&& ~~~(validMask n) ≠ 0 then none
    else if countOnes bitmap ≠ m.toNat then none
    else checkMpsoSigs C tx inputIndex scriptcode bitmap 0 pubkeys rest

/-- The preimage of 1 to 64 bytes that a secret-gated claim ends with. -/
def checkMpsoPreimage (expected : Hash32) (rest : Bytes) : Bool :=
  match readChunk rest with
  | .error _ => false
  | .ok (preimage, rest) =>
    if 64 < preimage.length then false
    else if C.sha256 preimage ≠ expected then false
    else decide (rest = [])

def verifyMpsoClaim (tx : Transaction) (inputIndex : Nat) (body : Bytes) (height : Nat)
    (mpso : MpsoV1Output) : Bool :=
  if mpso.timeoutHeight.toNat ≤ height then false
  else match checkMofN C tx inputIndex (encodeMpsoScript mpso) mpso.claimN mpso.claimM
      mpso.claimPubkeys body with
    | none => false
    | some rest =>
      if mpsoSecretGate mpso.flags then
        match mpso.optionalHash with
        | some expected => checkMpsoPreimage C expected rest
        | none => false
      else decide (rest = [])

def verifyMpsoRefund (tx : Transaction) (inputIndex : Nat) (body : Bytes) (height : Nat)
    (mpso : MpsoV1Output) : Bool :=
  if height < mpso.timeoutHeight.toNat then false
  else checkMofN C tx inputIndex (encodeMpsoScript mpso) mpso.refundN mpso.refundM
    mpso.refundPubkeys body = some []

def verifyMpsoSpend (tx : Transaction) (inputIndex : Nat) (scriptSig : Bytes) (height : Nat)
    (mpso : MpsoV1Output) : Bool :=
  if mpsoV1MaxWitnessSize < scriptSig.length then false
  else match scriptSig with
    | [] => false
    | tag :: body =>
      if tag = 0x01 then verifyMpsoClaim C tx inputIndex body height mpso
      else if tag = 0x02 then verifyMpsoRefund C tx inputIndex body height mpso
      else false

/-- What separates a Bitcoin from a Litecoin swap. -/
structure SwapRules where
  acceptP2wpkh : Bool
  magic : Bytes
  encode : HtlcSwapOutput → Bytes

def btcSwapRules (bech32Active : Bool) : SwapRules :=
  ⟨bech32Active, btcOpReturnBindingMagic, encodeHtlcBtcSwapV1Script⟩

def ltcSwapRules : SwapRules := ⟨true, ltcOpReturnBindingMagic, encodeHtlcLtcSwapV1Script⟩

def paysSwap (R : SwapRules) (swap : HtlcSwapOutput) (o : ForeignOutput) : Bool :=
  match o.script with
  | .p2pkh pkh => pkh = swap.foreignRecipientPkh ∧ swap.foreignAmountSats ≤ o.value
  | .p2wpkh pkh => R.acceptP2wpkh ∧ pkh = swap.foreignRecipientPkh ∧ swap.foreignAmountSats ≤ o.value
  | _ => false

def bindsSwap (R : SwapRules) (swap : HtlcSwapOutput) (o : ForeignOutput) : Bool :=
  match o.script with
  | .opReturn data => data = R.magic ++ swap.fundingBinding.bytes
  | _ => false

def scanOutputs (R : SwapRules) (swap : HtlcSwapOutput) :
    List ForeignOutput → Bool → Option UInt32 → Option (Bool × Option UInt32)
  | [], pays, vout => some (pays, vout)
  | o :: os, pays, vout =>
    if bindsSwap R swap o then
      if vout.isSome then none else scanOutputs R swap os pays (some o.vout)
    else scanOutputs R swap os (pays || paysSwap R swap o) vout

def provenPayment (R : SwapRules) (swap : HtlcSwapOutput) (relay : Relay) (blockHash : Hash32)
    (branch : List Hash32) (index : UInt32) (txRaw : Bytes) : Option ForeignOutpoint := do
  let proofHeight ← relay.heights.lookup blockHash
  guard (swap.confirmationsRequired.toNat ≤ relay.tipHeight + 1 - proofHeight)
  let entry ← relay.headers.lookup blockHash
  let txid ← btcTxid C txRaw
  guard (computeMerkleRoot C txid branch index = entry.header.merkleRoot)
  let outs ← parseBtcTxOutputs txRaw
  let (pays, opReturnVout) ← scanOutputs R swap outs false none
  guard pays
  let vout ← opReturnVout
  return (txid, vout)

def verifySwapSpend (R : SwapRules) (tx : Transaction) (inputIndex : Nat) (scriptSig : Bytes)
    (height : Nat) (swap : HtlcSwapOutput) (view : ForeignView) (consumed : List ForeignOutpoint) :
    Option (List ForeignOutpoint) := do
  match ← parseHtlcSwapWitness scriptSig with
  | .claim sig pubkey blockHash branch index txRaw =>
    let outpoint ← provenPayment C R swap view.relay blockHash branch index txRaw
    guard (outpoint ∉ view.claimed)
    guard (outpoint ∉ consumed)
    guard (hash160 C pubkey = swap.recipientPkh)
    guard (verifySigWithPubkey C tx inputIndex (R.encode swap) sig pubkey)
    return consumed ++ [outpoint]
  | .refund sig pubkey =>
    guard (swap.timeoutHeight.toNat ≤ height)
    guard (hash160 C pubkey = swap.refundPkh)
    guard (verifySigWithPubkey C tx inputIndex (R.encode swap) sig pubkey)
    return consumed

/-- What separates a Bitcoin from a Litecoin order. -/
structure OrderRules where
  encodeSwap : HtlcSwapOutput → Bytes
  encodeOrder : SwapOrderOutput → Bytes

def btcOrderRules : OrderRules := ⟨encodeHtlcBtcSwapV1Script, encodeSwapOrderScript⟩
def ltcOrderRules : OrderRules := ⟨encodeHtlcLtcSwapV1Script, encodeLtcSwapOrderScript⟩

def sellFillSwap (order : SwapOrderOutput) (txin : TxInput) (takerPkh : Pkh) (timeout : UInt64) :
    HtlcSwapOutput where
  confirmationsRequired := order.confirmationsRequired
  recipientPkh := takerPkh
  refundPkh := order.makerIriumdPkh
  foreignRecipientPkh := order.makerForeignPkh
  foreignAmountSats := order.foreignAmountSats
  timeoutHeight := timeout
  fundingBinding := computeFundingBinding C txin.prevTxid txin.prevIndex

def verifyOrderSpend (R : OrderRules) (tx : Transaction) (inputIndex : Nat) (txin : TxInput)
    (utxoValue : UInt64) (height : Nat) (order : SwapOrderOutput) : Bool :=
  match parseOrderWitness txin.scriptSig order.direction, tx.outputs with
  | none, _ => false
  | some (.fillSell sig pubkey takerPkh timeout), outputs =>
    if order.direction ≠ directionSell then false
    else if order.expiryHeight.toNat < height then false
    else if timeout.toNat ≤ height then false
    else match outputs with
      | [] => false
      | out :: _ =>
        if out.scriptPubkey ≠ R.encodeSwap (sellFillSwap C order txin takerPkh timeout) then false
        else if out.value ≠ order.irmAmount then false
        else verifySigWithPubkey C tx inputIndex (R.encodeOrder order) sig pubkey
  | some (.fillBuy sig pubkey irmTimeout), outputs =>
    if order.direction ≠ directionBuy then false
    else if order.expiryHeight.toNat < height then false
    else if irmTimeout.toNat ≤ height then false
    else match outputs, order.expectedHash with
      | out :: _, some expectedHash =>
        if out.scriptPubkey ≠ encodeHtlcv1Script
            ⟨expectedHash, order.makerIriumdPkh, hash160 C pubkey, irmTimeout⟩ then false
        else if out.value ≠ order.irmAmount then false
        else verifySigWithPubkey C tx inputIndex (R.encodeOrder order) sig pubkey
      | _, _ => false
  | some (.cancel sig pubkey), _ =>
    if order.expiryHeight.toNat ≤ height then false
    else if hash160 C pubkey ≠ order.makerIriumdPkh then false
    else verifySigWithPubkey C tx inputIndex (R.encodeOrder order) sig pubkey
  | some .expireSweep, outputs =>
    if height < order.expiryHeight.toNat then false
    else match outputs with
      | [] => false
      | out :: _ =>
        if out.scriptPubkey ≠ p2pkhScript order.makerIriumdPkh then false
        else decide (utxoValue.toNat - swapOrderMaxSweepFee ≤ out.value.toNat)

/-- `none` when the spend is refused, else the foreign outpoints consumed so far. -/
def verifyTransactionSignature (tx : Transaction) (inputIndex : Nat) (txin : TxInput) (utxo : TxOutput)
    (height : Nat) (flags : SpendFlags) (view : ConsensusView) (consumed : Consumed) : Option Consumed :=
  match parseOutputEncumbrance utxo.scriptPubkey with
  | .p2pkh pkh =>
    if verifyP2pkhSpend C tx inputIndex txin.scriptSig utxo.scriptPubkey pkh then some consumed else none
  | .htlcV1 htlc =>
    if flags.htlcv1 = false then none
    else if verifyHtlcSpend C tx inputIndex txin.scriptSig height htlc then some consumed else none
  | .mpsoV1 mpso =>
    if flags.mpsov1 = false then none
    else if verifyMpsoSpend C tx inputIndex txin.scriptSig height mpso then some consumed else none
  | .htlcBtcSwapV1 swap =>
    if flags.htlcBtcSwapV1 = false then none
    else (verifySwapSpend C (btcSwapRules flags.btcSwapBech32Payment) tx inputIndex txin.scriptSig height
      swap view.btc consumed.btc).map fun btc => { consumed with btc }
  | .htlcLtcSwapV1 swap =>
    if flags.htlcLtcSwapV1 = false then none
    else (verifySwapSpend C ltcSwapRules tx inputIndex txin.scriptSig height swap view.ltc
      consumed.ltc).map fun ltc => { consumed with ltc }
  | .swapOrder order =>
    if flags.swapOrderV1 = false then none
    else if verifyOrderSpend C btcOrderRules tx inputIndex txin utxo.value height order then some consumed
    else none
  | .ltcSwapOrder order =>
    if flags.ltcSwapOrderV1 = false then none
    else if verifyOrderSpend C ltcOrderRules tx inputIndex txin utxo.value height order then some consumed
    else none
  | .unknown => none

end IriumConsensus
