import IriumConsensus.Pow

namespace IriumConsensus

open ByteCodec

structure TxInput where
  prevTxid : Hash32
  prevIndex : UInt32
  scriptSig : Bytes
  sequence : UInt32
  deriving DecidableEq, Repr

structure TxOutput where
  value : UInt64
  scriptPubkey : Bytes
  deriving DecidableEq, Repr

structure Transaction where
  version : UInt32
  inputs : List TxInput
  outputs : List TxOutput
  locktime : UInt32
  deriving DecidableEq, Repr

def writeVarint (n : Nat) : Bytes :=
  if n < 0xfd then [UInt8.ofNat n]
  else if n ≤ 0xffff then 0xfd :: leList 2 n
  else if n ≤ 0xffffffff then 0xfe :: leList 4 n
  else 0xff :: leList 8 n

def TxInput.serialize (inp : TxInput) : Bytes :=
  [UInt8.ofNat inp.prevTxid.bytes.length] ++ inp.prevTxid.bytes ++ le32 inp.prevIndex ++
    [UInt8.ofNat inp.scriptSig.length] ++ inp.scriptSig ++ le32 inp.sequence

def TxOutput.serialize (out : TxOutput) : Bytes :=
  le64 out.value ++ writeVarint out.scriptPubkey.length ++ out.scriptPubkey

/-- The input and output counts are written as one byte each, modulo 256. -/
def Transaction.serialize (tx : Transaction) : Bytes :=
  le32 tx.version ++ [UInt8.ofNat tx.inputs.length] ++ tx.inputs.flatMap TxInput.serialize ++
    [UInt8.ofNat tx.outputs.length] ++ tx.outputs.flatMap TxOutput.serialize ++ le32 tx.locktime

def Transaction.txid (C : Crypto) (tx : Transaction) : Hash32 := (sha256d C tx.serialize).reverse

def readVarint (err : String) : Reader Nat := do
  let first ← readU8 err
  if first = 0xff then return (← readU64 err).toNat
  else if first = 0xfe then return (← readU32 err).toNat
  else if first = 0xfd then return (← readU16 err).toNat
  else return first.toNat

def eofError : String := "unexpected EOF"

def readTxInput : Reader TxInput := do
  let txidLen ← readU8 eofError
  let prevTxidBytes ← readBytes txidLen.toNat eofError
  if h : prevTxidBytes.length = 32 then
    let prevIndex ← readU32 eofError
    let scriptLen ← readU8 eofError
    let scriptSig ← readBytes scriptLen.toNat eofError
    let sequence ← readU32 eofError
    return ⟨⟨prevTxidBytes, h⟩, prevIndex, scriptSig, sequence⟩
  else throw "invalid prev_txid length"

def readTxOutput : Reader TxOutput := do
  let value ← readU64 eofError
  let scriptLen ← readVarint "unexpected EOF reading output script_len varint"
  let scriptPubkey ← readBytes scriptLen eofError
  return ⟨value, scriptPubkey⟩

def decodeFullTxAt : Reader Transaction := do
  let version ← readU32 eofError
  let inputCount ← readU8 eofError
  let inputs ← readMany readTxInput inputCount.toNat
  let outputCount ← readU8 eofError
  let outputs ← readMany readTxOutput outputCount.toNat
  let locktime ← readU32 eofError
  return ⟨version, inputs, outputs, locktime⟩

def decodeFullTx (raw : Bytes) : Except String Transaction := do
  let (tx, rest) ← decodeFullTxAt raw
  if rest ≠ [] then throw "trailing bytes after transaction"
  return tx

theorem readVarint_reads {n : Nat} (hn : n < 2 ^ 64) (err : String) :
    Reads (readVarint err) (writeVarint n) n := by
  unfold writeVarint
  split
  next h =>
    have hb : (UInt8.ofNat n).toNat = n := by simp; omega
    have hne : ∀ t : UInt8, n < t.toNat → ¬ UInt8.ofNat n = t := by
      intro t ht he
      rw [he] at hb
      omega
    intro rest
    have h1 := hne 0xff (by simp; omega)
    have h2 := hne 0xfe (by simp; omega)
    have h3 := hne 0xfd (by simpa using h)
    rw [readVarint, (readU8_reads err (UInt8.ofNat n)).bind_apply, if_neg h1, if_neg h2, if_neg h3, hb]
    exact reader_pure n rest
  next h =>
    split
    next h2 =>
      have hr := (readU16_reads err (UInt16.ofNat n)).map UInt16.toNat
      have hv : (UInt16.ofNat n).toNat = n := by simp; omega
      rw [le16, hv] at hr
      exact (readU8_reads err 0xfd).bind hr
    next h2 =>
      split
      next h3 =>
        have hr := (readU32_reads err (UInt32.ofNat n)).map UInt32.toNat
        have hv : (UInt32.ofNat n).toNat = n := by simp; omega
        rw [le32, hv] at hr
        exact (readU8_reads err 0xfe).bind hr
      next h3 =>
        have hr := (readU64_reads err (UInt64.ofNat n)).map UInt64.toNat
        have hv : (UInt64.ofNat n).toNat = n := by simp; omega
        rw [le64, hv] at hr
        exact (readU8_reads err 0xff).bind hr

end IriumConsensus
