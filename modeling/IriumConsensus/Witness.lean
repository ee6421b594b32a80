import IriumConsensus.Script

namespace IriumConsensus

open ByteCodec

inductive InputWitness where
  | p2pkh (sig pubkey : Bytes)
  | htlcClaim (sig pubkey preimage : Bytes)
  | htlcRefund (sig pubkey : Bytes)
  | unknown
  deriving DecidableEq, Repr

/-- The witness of `HtlcBtcSwapWitness` and `HtlcLtcSwapWitness`. -/
inductive HtlcSwapWitness where
  | claim (sig pubkey : Bytes) (blockHash : Hash32) (merkleBranch : List Hash32)
      (merkleIndex : UInt32) (txRaw : Bytes)
  | refund (sig pubkey : Bytes)
  deriving DecidableEq, Repr

/-- The witness of `SwapOrderWitness` and `LtcSwapOrderWitness`. -/
inductive SwapOrderWitness where
  | fillSell (sig pubkey : Bytes) (takerIriumdPkh : Pkh) (timeoutHeight : UInt64)
  | fillBuy (sig pubkey : Bytes) (irmTimeoutHeight : UInt64)
  | cancel (sig pubkey : Bytes)
  | expireSweep
  deriving DecidableEq, Repr

/-- A length byte, which may not be zero, and that many bytes. -/
def readChunk : Reader Bytes := do
  let len ← readU8 ""
  if len = 0 then throw ""
  readBytes len.toNat ""

def readEnd : Reader Unit := fun bs => if bs = [] then .ok ((), []) else .error ""

def parseWith {α : Type} (r : Reader α) (script : Bytes) : Option α :=
  match r script with
  | .ok (a, _) => some a
  | .error _ => none

def readSigPubkey : Reader (Bytes × Bytes) := do
  let sig ← readChunk
  let pubkey ← readChunk
  readEnd
  return (sig, pubkey)

def parseLegacyP2pkhWitness (scriptSig : Bytes) : Option InputWitness :=
  (parseWith readSigPubkey scriptSig).map fun w => .p2pkh w.1 w.2

def readHtlcClaim : Reader InputWitness := do
  let sig ← readChunk
  let pubkey ← readChunk
  let preimage ← readChunk
  readEnd
  return .htlcClaim sig pubkey preimage

/-- The tags 1 and 2 stand for an HTLC branch; any other first byte is a signature length. -/
def parseInputWitness (scriptSig : Bytes) : InputWitness :=
  match scriptSig with
  | [] => .unknown
  | tag :: rest =>
    if tag = 1 then (parseWith readHtlcClaim rest).getD .unknown
    else if tag = 2 then
      ((parseWith readSigPubkey rest).map fun w => .htlcRefund w.1 w.2).getD .unknown
    else (parseLegacyP2pkhWitness scriptSig).getD .unknown

def readSwapClaim : Reader HtlcSwapWitness := do
  let sig ← readChunk
  let pubkey ← readChunk
  let blockHash ← readVec 32 ""
  let branchLen ← readU16 ""
  if branchLen > 32 then throw ""
  let merkleBranch ← readMany (readVec 32 "") branchLen.toNat
  let merkleIndex ← readU32 ""
  let txLen ← readVarint ""
  if txLen = 0 ∨ txLen > 1000000 then throw ""
  let txRaw ← readBytes txLen ""
  readEnd
  return .claim sig pubkey blockHash merkleBranch merkleIndex txRaw

def parseHtlcSwapWitness (scriptSig : Bytes) : Option HtlcSwapWitness :=
  match scriptSig with
  | [] => none
  | tag :: rest =>
    if tag = 1 then parseWith readSwapClaim rest
    else if tag = 2 then (parseWith readSigPubkey rest).map fun w => .refund w.1 w.2
    else none

def parseHtlcBtcSwapWitness := parseHtlcSwapWitness
def parseHtlcLtcSwapWitness := parseHtlcSwapWitness

def readFill (direction : UInt8) : Reader SwapOrderWitness := do
  let sig ← readChunk
  let pubkey ← readChunk
  if direction = directionSell then
    let takerIriumdPkh ← readVec 20 ""
    let timeoutHeight ← readU64 ""
    readEnd
    return .fillSell sig pubkey takerIriumdPkh timeoutHeight
  else if direction = directionBuy then
    let irmTimeoutHeight ← readU64 ""
    readEnd
    return .fillBuy sig pubkey irmTimeoutHeight
  else throw ""

def parseOrderWitness (scriptSig : Bytes) (direction : UInt8) : Option SwapOrderWitness :=
  match scriptSig with
  | [] => none
  | tag :: rest =>
    if tag = 1 then parseWith (readFill direction) rest
    else if tag = 2 then (parseWith readSigPubkey rest).map fun w => .cancel w.1 w.2
    else if tag = 3 then if rest = [] then some .expireSweep else none
    else none

def parseSwapOrderWitness := parseOrderWitness
def parseLtcSwapOrderWitness := parseOrderWitness

end IriumConsensus
