import IriumConsensus.Lib.Checks
import IriumConsensus.Lib.Hex
import IriumConsensus.Lib.MerkleBranch
import IriumConsensus.Transaction

namespace IriumConsensus

open ByteCodec Checks

def auxpowVersionBit : UInt32 := 0x100
def auxpowCommitMagic : Bytes := [0xfa, 0xbe, 0x6d, 0x6d]
def maxBranchDepth : Nat := 20

structure AuxPow where
  coinbaseTxn : Bytes
  parentHash : Hash32
  coinbaseBranch : List Hash32
  coinbaseBranchIndex : UInt32
  blockchainBranch : List Hash32
  blockchainBranchIndex : UInt32
  parentHeader : ByteVec 80
  deriving DecidableEq, Repr

variable (C : Crypto)

def merkleNode (left right : Hash32) : Hash32 := sha256d C (left.bytes ++ right.bytes)

def computeMerkleRoot (leaf : Hash32) (branch : List Hash32) (index : UInt32) : Hash32 :=
  MerkleBranch.climb (merkleNode C) leaf branch index.toNat

/-- The scan for the commitment: the first magic with 36 more bytes behind it. -/
def findCommitmentFrom : Bytes → Option (Hash32 × UInt32)
  | [] => none
  | b :: rest =>
    if (b :: rest).length < 40 then none
    else if (b :: rest).take 4 = auxpowCommitMagic then do
      let committedRoot ← sliceVec 32 4 (b :: rest)
      let countBytes ← sliceVec 4 36 (b :: rest)
      return (committedRoot, UInt32.ofNat (leNat countBytes.bytes))
    else findCommitmentFrom rest

def findCommitment (coinbase : Bytes) : Except String (Hash32 × UInt32) :=
  if coinbase.length < 40 then .error "coinbase too short to contain a commitment"
  else match findCommitmentFrom coinbase with
    | some found => .ok found
    | none => .error "merged-mining commitment not found in coinbase"

/-- `copy_from_slice(&ap.parent_header[36..68])`. -/
def AuxPow.parentMerkleRoot (ap : AuxPow) : Hash32 where
  bytes := (ap.parentHeader.bytes.drop 36).take 32
  length_eq := by simp

def checkCommitment (ap : AuxPow) (auxHash committedRoot : Hash32) (chainCount : UInt32) :
    Except String Unit := do
  failIf (chainCount = 0) "chain count in commitment is zero"
  if chainCount = 1 then
    failIf (committedRoot ≠ auxHash.reverse) "coinbase commitment does not match aux block hash"
  else
    failIf (ap.blockchainBranchIndex ≥ chainCount) "blockchain branch index exceeds chain count"
    failIf ((computeMerkleRoot C auxHash ap.blockchainBranch ap.blockchainBranchIndex).reverse ≠ committedRoot)
      "blockchain Merkle branch does not match commitment root"

def validateWithParentHash (ap : AuxPow) (auxHeaderBytes : Bytes) (target : Target)
    (parentPow : ByteVec 80 → Bool) : Except String Unit := do
  failIf (auxHeaderBytes.length ≠ 80) "aux block header must be exactly 80 bytes"
  failIf (ap.coinbaseBranch.length > maxBranchDepth) "coinbase branch depth exceeds maximum"
  failIf (ap.blockchainBranch.length > maxBranchDepth) "blockchain branch depth exceeds maximum"
  let found ← findCommitment ap.coinbaseTxn
  checkCommitment C ap (sha256d C auxHeaderBytes) found.1 found.2
  failIf (computeMerkleRoot C (sha256d C ap.coinbaseTxn) ap.coinbaseBranch ap.coinbaseBranchIndex ≠
    ap.parentMerkleRoot) "coinbase Merkle branch does not match parent block merkle root"
  failIf (parentPow ap.parentHeader = false)
    ("parent block hash does not meet target (bits=0x" ++
      encodeHex (leList 4 target.bits.toNat).reverse ++ ")")

def auxpowValidate (ap : AuxPow) (auxHeaderBytes : Bytes) (target : Target) : Except String Unit :=
  validateWithParentHash C ap auxHeaderBytes target fun header =>
    meetsTarget (sha256d C header.bytes).reverse target

end IriumConsensus
