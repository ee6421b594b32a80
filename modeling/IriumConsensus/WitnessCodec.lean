import IriumConsensus.Lib.Codec
import IriumConsensus.Witness

namespace IriumConsensus

open ByteCodec

/-- A length byte with that many bytes, as `readChunk` takes them. -/
def encodeChunk (bs : Bytes) : Option Bytes :=
  if bs = [] ∨ 255 < bs.length then none else some (UInt8.ofNat bs.length :: bs)

def encodeSigPubkey (sig pubkey : Bytes) : Option Bytes := do
  return (← encodeChunk sig) ++ (← encodeChunk pubkey)

def encodeHtlcv1ClaimWitness (sig pubkey preimage : Bytes) : Option Bytes := do
  return 1 :: (← encodeSigPubkey sig pubkey) ++ (← encodeChunk preimage)

def encodeHtlcv1RefundWitness (sig pubkey : Bytes) : Option Bytes := do
  return 2 :: (← encodeSigPubkey sig pubkey)

/-- The witness of `encode_htlc_btc_swap_claim_witness` and `encode_htlc_ltc_swap_claim_witness`. -/
def encodeHtlcSwapClaimWitness (sig pubkey : Bytes) (blockHash : Hash32) (merkleBranch : List Hash32)
    (merkleIndex : UInt32) (txRaw : Bytes) : Option Bytes := do
  let keys ← encodeSigPubkey sig pubkey
  guard (merkleBranch.length ≤ 0xffff)
  guard (txRaw ≠ [])
  return 1 :: keys ++ blockHash.bytes ++ leList 2 merkleBranch.length ++ merkleBranch.flatMap ByteVec.bytes ++
    le32 merkleIndex ++ writeVarint txRaw.length ++ txRaw

def encodeHtlcSwapRefundWitness := encodeHtlcv1RefundWitness

def encodeSwapOrderFillSellWitness (sig pubkey : Bytes) (takerIriumdPkh : Pkh) (timeoutHeight : UInt64) :
    Option Bytes := do
  return 1 :: (← encodeSigPubkey sig pubkey) ++ takerIriumdPkh.bytes ++ le64 timeoutHeight

def encodeSwapOrderFillBuyWitness (sig pubkey : Bytes) (irmTimeoutHeight : UInt64) : Option Bytes := do
  return 1 :: (← encodeSigPubkey sig pubkey) ++ le64 irmTimeoutHeight

def encodeSwapOrderCancelWitness := encodeHtlcv1RefundWitness

def encodeSwapOrderExpireSweepWitness : Bytes := [3]

def encodeSignatures (sigs : List Bytes) : Option Bytes := (sigs.mapM encodeChunk).map List.flatten

def encodeMpsoClaimWitness (bitmap : UInt8) (sigs : List Bytes) (preimage : Option Bytes) : Option Bytes := do
  let signed ← encodeSignatures sigs
  match preimage with
  | none => return [1, bitmap] ++ signed
  | some pre =>
    guard (pre.length ≤ 64)
    return [1, bitmap] ++ signed ++ (← encodeChunk pre)

def encodeMpsoRefundWitness (bitmap : UInt8) (sigs : List Bytes) : Option Bytes := do
  return [2, bitmap] ++ (← encodeSignatures sigs)

end IriumConsensus
