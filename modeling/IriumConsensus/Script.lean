import IriumConsensus.Transaction

namespace IriumConsensus

open ByteCodec

structure HtlcV1Output where
  expectedHash : Hash32
  recipientPkh : Pkh
  refundPkh : Pkh
  timeoutHeight : UInt64
  deriving DecidableEq, Repr

structure MpsoV1Output where
  flags : UInt8
  claimN : UInt8
  claimM : UInt8
  refundN : UInt8
  refundM : UInt8
  agreementHash : Hash32
  claimPubkeys : List PubKey33
  refundPubkeys : List PubKey33
  timeoutHeight : UInt64
  optionalHash : Option Hash32
  deriving DecidableEq, Repr

/-- The layout shared by `HtlcBtcSwapV1Output` and `HtlcLtcSwapV1Output`. -/
structure HtlcSwapOutput where
  confirmationsRequired : UInt8
  recipientPkh : Pkh
  refundPkh : Pkh
  foreignRecipientPkh : Pkh
  foreignAmountSats : UInt64
  timeoutHeight : UInt64
  fundingBinding : ByteVec 8
  deriving DecidableEq, Repr

/-- The layout shared by `SwapOrderOutput` and `LtcSwapOrderOutput`. -/
structure SwapOrderOutput where
  direction : UInt8
  confirmationsRequired : UInt8
  irmAmount : UInt64
  foreignAmountSats : UInt64
  makerIriumdPkh : Pkh
  makerForeignPkh : Pkh
  expiryHeight : UInt64
  orderId : ByteVec 8
  expectedHash : Option Hash32
  deriving DecidableEq, Repr

inductive OutputEncumbrance where
  | p2pkh (pkh : Pkh)
  | htlcV1 (htlc : HtlcV1Output)
  | mpsoV1 (mpso : MpsoV1Output)
  | htlcBtcSwapV1 (swap : HtlcSwapOutput)
  | htlcLtcSwapV1 (swap : HtlcSwapOutput)
  | swapOrder (order : SwapOrderOutput)
  | ltcSwapOrder (order : SwapOrderOutput)
  | unknown
  deriving DecidableEq, Repr

def htlcV1ScriptTag : UInt8 := 0xc0
def mpsoV1Tag : UInt8 := 0xc1
def htlcBtcSwapV1Tag : UInt8 := 0xc3
def btcHeaderBatchTag : UInt8 := 0xc4
def swapOrderV1Tag : UInt8 := 0xc5
def ltcHeaderBatchTag : UInt8 := 0xc6
def htlcLtcSwapV1Tag : UInt8 := 0xc7
def ltcSwapOrderV1Tag : UInt8 := 0xc8
def directionSell : UInt8 := 0x01
def directionBuy : UInt8 := 0x02

def p2pkhScript (pkh : Pkh) : Bytes := [0x76, 0xa9, 0x14] ++ pkh.bytes ++ [0x88, 0xac]

def parseP2pkhScript (script : Bytes) : Option Pkh := do
  guard (script.length = 25)
  guard (script[0]? = some 0x76 ∧ script[1]? = some 0xa9 ∧ script[2]? = some 0x14)
  guard (script[23]? = some 0x88 ∧ script[24]? = some 0xac)
  sliceVec 20 3 script

def encodeHtlcv1Script (o : HtlcV1Output) : Bytes :=
  [htlcV1ScriptTag, 1, 1] ++ o.expectedHash.bytes ++ o.recipientPkh.bytes ++ o.refundPkh.bytes ++
    le64 o.timeoutHeight

def parseHtlcv1Script (script : Bytes) : Option HtlcV1Output := do
  guard (script.length = 83)
  guard (script[0]? = some htlcV1ScriptTag ∧ script[1]? = some 1 ∧ script[2]? = some 1)
  return ⟨← sliceVec 32 3 script, ← sliceVec 20 35 script, ← sliceVec 20 55 script,
    ← u64At 75 script⟩

def encodeMpsoScript (o : MpsoV1Output) : Bytes :=
  [mpsoV1Tag, 0x01, o.flags, 0x00, o.claimN, o.claimM, o.refundN, o.refundM] ++
    o.agreementHash.bytes ++ o.claimPubkeys.flatMap ByteVec.bytes ++
    o.refundPubkeys.flatMap ByteVec.bytes ++ le64 o.timeoutHeight ++
    (match o.optionalHash with
      | some h => h.bytes
      | none => [])

def parsePubkeys (script : Bytes) : Nat → Nat → Option (List PubKey33)
  | 0, _ => some []
  | n + 1, pos => do
    guard (script[pos]? = some 0x02 ∨ script[pos]? = some 0x03)
    let pk ← sliceVec 33 pos script
    let rest ← parsePubkeys script n (pos + 33)
    return pk :: rest

def optionalHashAt (present : Bool) (pos : Nat) (script : Bytes) : Option (Option Hash32) :=
  if present then (sliceVec 32 pos script).map some else some none

def mpsoSecretGate (flags : UInt8) : Bool := flags &&& 0x01 != 0

def parseMpsoScript (script : Bytes) : Option MpsoV1Output := do
  guard (8 ≤ script.length)
  guard (script[0]? = some mpsoV1Tag ∧ script[1]? = some 0x01)
  let flags ← script[2]?
  guard (flags &&& 0xFE = 0)
  guard (script[3]? = some 0x00)
  let claimN ← script[4]?
  let claimM ← script[5]?
  let refundN ← script[6]?
  let refundM ← script[7]?
  guard (1 ≤ claimN ∧ claimN ≤ 8)
  guard (1 ≤ claimM ∧ claimM ≤ claimN)
  guard (1 ≤ refundN ∧ refundN ≤ 8)
  guard (1 ≤ refundM ∧ refundM ≤ refundN)
  guard (script.length =
    48 + (claimN.toNat + refundN.toNat) * 33 + (if mpsoSecretGate flags then 32 else 0))
  guard (script.length ≤ 640)
  let agreementHash ← sliceVec 32 8 script
  let claimPubkeys ← parsePubkeys script claimN.toNat 40
  let refundPubkeys ← parsePubkeys script refundN.toNat (40 + claimN.toNat * 33)
  guard claimPubkeys.Nodup
  guard refundPubkeys.Nodup
  let pos := 40 + (claimN.toNat + refundN.toNat) * 33
  let timeoutHeight ← u64At pos script
  let optionalHash ← optionalHashAt (mpsoSecretGate flags) (pos + 8) script
  return ⟨flags, claimN, claimM, refundN, refundM, agreementHash, claimPubkeys, refundPubkeys,
    timeoutHeight, optionalHash⟩

def encodeHtlcSwapScript (tag : UInt8) (o : HtlcSwapOutput) : Bytes :=
  [tag, 1, o.confirmationsRequired] ++ o.recipientPkh.bytes ++ o.refundPkh.bytes ++
    o.foreignRecipientPkh.bytes ++ le64 o.foreignAmountSats ++ le64 o.timeoutHeight ++
    o.fundingBinding.bytes

def parseHtlcSwapScript (tag : UInt8) (script : Bytes) : Option HtlcSwapOutput := do
  guard (script.length = 87)
  guard (script[0]? = some tag ∧ script[1]? = some 1)
  return ⟨← script[2]?, ← sliceVec 20 3 script, ← sliceVec 20 23 script, ← sliceVec 20 43 script,
    ← u64At 63 script, ← u64At 71 script, ← sliceVec 8 79 script⟩

def encodeHtlcBtcSwapV1Script := encodeHtlcSwapScript htlcBtcSwapV1Tag
def parseHtlcBtcSwapV1Script := parseHtlcSwapScript htlcBtcSwapV1Tag
def encodeHtlcLtcSwapV1Script := encodeHtlcSwapScript htlcLtcSwapV1Tag
def parseHtlcLtcSwapV1Script := parseHtlcSwapScript htlcLtcSwapV1Tag

def encodeOrderScript (tag : UInt8) (o : SwapOrderOutput) : Bytes :=
  [tag, 1, o.direction, o.confirmationsRequired] ++ le64 o.irmAmount ++ le64 o.foreignAmountSats ++
    o.makerIriumdPkh.bytes ++ o.makerForeignPkh.bytes ++ le64 o.expiryHeight ++ o.orderId.bytes ++
    (if o.direction = directionBuy then
      match o.expectedHash with
      | some h => h.bytes
      | none => []
    else [])

def parseOrderScript (tag : UInt8) (script : Bytes) : Option SwapOrderOutput := do
  guard (script.length = 76 ∨ script.length = 108)
  guard (script[0]? = some tag ∧ script[1]? = some 1)
  let direction ← script[2]?
  guard (direction = directionSell ∨ direction = directionBuy)
  guard (script.length = if direction = directionBuy then 108 else 76)
  let expectedHash ← optionalHashAt (direction = directionBuy) 76 script
  return ⟨direction, ← script[3]?, ← u64At 4 script, ← u64At 12 script, ← sliceVec 20 20 script,
    ← sliceVec 20 40 script, ← u64At 60 script, ← sliceVec 8 68 script, expectedHash⟩

def encodeSwapOrderScript := encodeOrderScript swapOrderV1Tag
def parseSwapOrderScript := parseOrderScript swapOrderV1Tag
def encodeLtcSwapOrderScript := encodeOrderScript ltcSwapOrderV1Tag
def parseLtcSwapOrderScript := parseOrderScript ltcSwapOrderV1Tag

def parseOutputEncumbrance (script : Bytes) : OutputEncumbrance :=
  match parseP2pkhScript script with
  | some pkh => .p2pkh pkh
  | none =>
  match parseHtlcv1Script script with
  | some htlc => .htlcV1 htlc
  | none =>
  match parseMpsoScript script with
  | some mpso => .mpsoV1 mpso
  | none =>
  match parseHtlcBtcSwapV1Script script with
  | some swap => .htlcBtcSwapV1 swap
  | none =>
  match parseHtlcLtcSwapV1Script script with
  | some swap => .htlcLtcSwapV1 swap
  | none =>
  match parseSwapOrderScript script with
  | some order => .swapOrder order
  | none =>
  match parseLtcSwapOrderScript script with
  | some order => .ltcSwapOrder order
  | none => .unknown

def computeFundingBinding (C : Crypto) (fundingTxid : Hash32) (vout : UInt32) : ByteVec 8 where
  bytes := (sha256d C (fundingTxid.bytes ++ le32 vout)).bytes.take 8
  length_eq := by simp

end IriumConsensus
