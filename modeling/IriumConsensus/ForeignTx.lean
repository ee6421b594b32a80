import IriumConsensus.Script

namespace IriumConsensus

open ByteCodec

/-- `BtcOutputScript`: the output forms a swap proof looks at. -/
inductive ForeignScript where
  | p2pkh (pkh : Pkh)
  | p2wpkh (pkh : Pkh)
  | opReturn (data : Bytes)
  | other
  deriving DecidableEq, Repr

/-- `BtcTxOutputView`. -/
structure ForeignOutput where
  value : UInt64
  script : ForeignScript
  vout : UInt32
  deriving DecidableEq, Repr

def foreignTxMaxLen : Nat := 4000000

def parseP2wpkhScript (script : Bytes) : Option Pkh := do
  guard (script.length = 22)
  guard (script[0]? = some 0x00 ∧ script[1]? = some 0x14)
  sliceVec 20 2 script

/-- An `OP_RETURN` with one direct push of 1 to 75 bytes. -/
def parseOpReturn : Bytes → Option Bytes
  | 0x6a :: push :: data => do
    guard (1 ≤ push ∧ push ≤ 75 ∧ data.length = push.toNat)
    return data
  | _ => none

def parseOutputScript (script : Bytes) : ForeignScript :=
  match parseP2pkhScript script with
  | some pkh => .p2pkh pkh
  | none =>
  match parseP2wpkhScript script with
  | some pkh => .p2wpkh pkh
  | none =>
  match parseOpReturn script with
  | some data => .opReturn data
  | none => .other

-- The callers of this parser drop its error texts, so the readers below carry none.

def skipBytes (len : Nat) : Reader Unit := do
  let _ ← readBytes len ""

def readForeignCount : Reader Nat := do
  let count ← readVarint ""
  if count = 0 ∨ 100000 < count then throw ""
  return count

def readForeignInput : Reader Unit := do
  skipBytes 36
  let scriptLen ← readVarint ""
  skipBytes scriptLen
  skipBytes 4

def readForeignOutput : Reader (UInt64 × ForeignScript) := do
  let value ← readU64 ""
  let scriptLen ← readVarint ""
  let script ← readBytes scriptLen ""
  return (value, parseOutputScript script)

def readWitnessItem : Reader Unit := do
  let itemLen ← readVarint ""
  skipBytes itemLen

def readWitnessStack : Reader Unit := do
  let stackCount ← readVarint ""
  if 100000 < stackCount then throw ""
  let _ ← readMany readWitnessItem stackCount

/-- The version, and the segwit marker with its nonzero flag if there is one. -/
def readForeignStart : Reader Bool := do
  skipBytes 4
  fun bs => match bs with
    | [] => .error ""
    | 0x00 :: rest => match rest with
      | [] => .error ""
      | flag :: rest => if flag = 0 then .error "" else .ok (true, rest)
    | _ => .ok (false, bs)

def readForeignTx : Reader (List (UInt64 × ForeignScript)) := do
  let segwit ← readForeignStart
  let inCount ← readForeignCount
  let _ ← readMany readForeignInput inCount
  let outCount ← readForeignCount
  let outputs ← readMany readForeignOutput outCount
  if segwit then
    let _ ← readMany readWitnessStack inCount
  return outputs

/-- `parse_btc_tx_outputs`, also used for Litecoin. Only the locktime may follow. -/
def parseBtcTxOutputs (raw : Bytes) : Option (List ForeignOutput) :=
  if foreignTxMaxLen < raw.length then none
  else match readForeignTx raw with
    | .ok (outputs, rest) =>
      if rest.length = 4 then
        some (outputs.mapIdx fun i o => ⟨o.1, o.2, UInt32.ofNat i⟩)
      else none
    | .error _ => none

def readForeignBody : Reader Nat := do
  let inCount ← readForeignCount
  let _ ← readMany readForeignInput inCount
  let outCount ← readForeignCount
  let _ ← readMany readForeignOutput outCount
  return inCount

/-- The bytes that are hashed for the id: a segwit transaction without marker and witness. -/
def strippedTx (raw : Bytes) : Option Bytes :=
  match readForeignBody (raw.drop 6) with
  | .error _ => none
  | .ok (inCount, afterOutputs) =>
    match readMany readWitnessStack inCount afterOutputs with
    | .error _ => none
    | .ok (_, locktime) =>
      if locktime.length < 4 then none
      else some (raw.take 4 ++ (raw.drop 6).take ((raw.drop 6).length - afterOutputs.length) ++
        locktime.take 4)

def btcTxid (C : Crypto) (raw : Bytes) : Option Hash32 :=
  if raw.length < 10 ∨ foreignTxMaxLen < raw.length then none
  else if raw[4]? ≠ some 0x00 then some (sha256d C raw)
  else if raw[5]? = some 0x00 then none
  else (strippedTx raw).map (sha256d C)

end IriumConsensus
