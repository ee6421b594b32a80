import IriumConsensus.AuxPow
import IriumConsensus.Poawx.Receipt

namespace IriumConsensus

open ByteCodec

structure BlockHeader where
  version : UInt32
  prevHash : Hash32
  merkleRoot : Hash32
  time : UInt32
  bits : UInt32
  nonce : UInt32
  deriving DecidableEq, Repr

structure Block where
  header : BlockHeader
  transactions : List Transaction
  auxpow : Option AuxPow
  poawxReceipts : Option (List PoawxBlockReceipt)
  deriving DecidableEq, Repr

def BlockHeader.target (h : BlockHeader) : Target := ⟨h.bits⟩

/-- From the standard-header activation on, the merkle root is written in natural order. -/
def BlockHeader.serializeForHeight (E : NodeEnv) (h : BlockHeader) (height : Nat) : Bytes :=
  le32 h.version ++ h.prevHash.reverse.bytes ++
    (if height < E.standardHeaderActivationHeight then h.merkleRoot.reverse else h.merkleRoot).bytes ++
    le32 h.time ++ le32 h.bits ++ le32 h.nonce

def swap4BytesEachWord : Bytes → Bytes
  | a :: b :: c :: d :: rest => d :: c :: b :: a :: swap4BytesEachWord rest
  | rest => rest

variable (C : Crypto) (E : NodeEnv)

def BlockHeader.hashForHeight (h : BlockHeader) (height : Nat) : Hash32 :=
  (sha256d C (h.serializeForHeight E height)).reverse

def whatsminerCompatPowHashForHeight (h : BlockHeader) (height : Nat) : Option Hash32 :=
  if height < E.standardHeaderActivationHeight then none
  else some (sha256d C (le32 h.version ++ swap4BytesEachWord h.prevHash.reverse.bytes ++
    h.merkleRoot.bytes ++ le32 h.time ++ le32 h.bits ++ le32 h.nonce)).reverse

/-- One level of the tree; an odd last node is paired with itself. -/
def merkleLevel : List Hash32 → List Hash32
  | [] => []
  | [a] => [merkleNode C a a]
  | a :: b :: rest => merkleNode C a b :: merkleLevel rest

/-- Levels are built until one node is left; each level is shorter than the one below. -/
def merkleReduce : Nat → List Hash32 → Hash32
  | 0, level => level.headD (ByteVec.zero 32)
  | fuel + 1, level =>
    if level.length ≤ 1 then level.headD (ByteVec.zero 32) else merkleReduce fuel (merkleLevel C level)

def Block.merkleRoot (b : Block) : Hash32 :=
  merkleReduce C b.transactions.length (b.transactions.map fun tx => (tx.txid C).reverse)

def Block.receipts (b : Block) : List PoawxBlockReceipt := b.poawxReceipts.getD []

def Block.extensions (b : Block) : List (PoawxBlockReceipt × Phase20ReceiptExt) :=
  b.receipts.filterMap fun r => r.phase20Ext.map fun e => (r, e)

def workForTarget (t : Target) : Nat := if t.toTarget = 0 then 0 else 2 ^ 256 / (t.toTarget + 1)

def Block.work (b : Block) : Nat := workForTarget b.header.target

end IriumConsensus
