import IriumConsensus.Reorg

namespace IriumConsensus

open ByteCodec Checks FinMaps Stateful

def maxOrphanBlocks : Nat := 100

def eqIgnoreAsciiCase (a b : String) : Bool := a.toList.map Char.toLower = b.toList.map Char.toLower

def verifyBlockAgainstAnchors (anchors : List AnchorHeader) (height : Nat) (hashHex : String) : Bool :=
  match anchors.find? fun a => a.height = height with
  | some anchor => eqIgnoreAsciiCase anchor.hash hashHex
  | none => true

variable (C : Crypto) (E : NodeEnv) (A : Ambient)

namespace ChainState

variable (s : ChainState)

def orphanPoolSize (pool : FinMap Hash32 (List Block)) : Nat := total List.length pool

/-- Drop whole entries of the pool until it is small enough; each pass removes a key. -/
def pruneOrphanPool : Nat → FinMap Hash32 (List Block) → FinMap Hash32 (List Block)
  | 0, pool => pool
  | fuel + 1, pool =>
    if h : maxOrphanBlocks < orphanPoolSize pool ∧ pool.keys.Nonempty then
      pruneOrphanPool fuel (pool.erase (A.firstKey pool.keys h.2).1)
    else pool

def addOrphan (b : Block) : ChainState :=
  let parent := b.header.prevHash
  let pool := s.orphanPool.insert parent ((s.orphanPool.lookup parent).getD [] ++ [b])
  { s with orphanPool := pruneOrphanPool A pool.keys.card pool }

/-- What `process_block` knows of a block from its parent. -/
structure Placement where
  blockHeight : Nat
  hash : Hash32
  height : Nat
  cumulative : Nat
  deriving DecidableEq, Repr

def place (b : Block) : Placement :=
  let parent := b.header.prevHash
  let known := decide (parent ≠ ByteVec.zero 32)
  let parentHeight := if known then (s.heights.lookup parent).getD 0 else 0
  let parentWork := if known then (s.cumulativeWork.lookup parent).getD 0 else 0
  let blockHeight := if known then parentHeight + 1 else 0
  ⟨blockHeight, b.header.hashForHeight C E blockHeight, parentHeight + 1, parentWork + b.work⟩

def checkPlacement (b : Block) (p : Placement) : Except String Unit := do
  failIf (p.hash ∈ s.blockStore) "duplicate block"
  checkPow C E s b p.blockHeight b.header.target "block does not satisfy proof-of-work target"
  failIf (s.anchors.any (fun anchors => !verifyBlockAgainstAnchors anchors p.height (encodeHex p.hash.bytes)) =
    true) "block violates anchor checkpoint"

def addToIndex (b : Block) (p : Placement) : ChainState :=
  { s with
    blockStore := s.blockStore.insert p.hash b
    heights := s.heights.insert p.hash p.height
    cumulativeWork := s.cumulativeWork.insert p.hash p.cumulative }

def removeFromIndex (hash : Hash32) : ChainState :=
  { s with
    blockStore := s.blockStore.erase hash
    heights := s.heights.erase hash
    cumulativeWork := s.cumulativeWork.erase hash }

def forkChoice (p : Placement) : Except String Bool :=
  if proposerVrfEnforced E p.height then proposerRankChainBetter C E s p.hash
  else .ok (decide (s.totalWork < p.cumulative))

/-- Extend the tip or switch to the branch of the block; the result says whether the tip moved. -/
def adoptBlock (b : Block) (p : Placement) : Run ChainState String Bool := do
  let s ← read
  if b.header.prevHash = tipHash C E s then do
    connectBlock C E A b
    return true
  else do
    let better ← lift (forkChoice C E s p)
    if better then do
      reorgToTip C E A p.hash
      return true
    else return false

def indexAndAdopt (b : Block) (p : Placement) : Run ChainState String Bool := do
  update (addToIndex · b p)
  let result ← attempt (adoptBlock C E A b p)
  match result with
  | .ok advanced => return advanced
  | .error e => do
    update (removeFromIndex · p.hash)
    fail e

/-- Process the children of a tip; the hash of the last one that was adopted comes back. -/
def processChildren (process : Block → Run ChainState String (Nat × Hash32)) :
    List Block → Hash32 → Run ChainState String Hash32
  | [], newHash => pure newHash
  | child :: rest, newHash => do
    let result ← attempt (process child)
    match result with
    | .ok r => processChildren process rest r.2
    | .error _ => processChildren process rest newHash

def drainOrphans (process : Block → Run ChainState String (Nat × Hash32)) :
    Nat → Hash32 → Run ChainState String Unit
  | 0, _ => fail "orphan loop does not end"
  | fuel + 1, newHash => do
    let s ← read
    match s.orphanPool.lookup newHash with
    | none => pure ()
    | some children => do
      update fun s => { s with orphanPool := s.orphanPool.erase newHash }
      let newHash ← processChildren process children newHash
      drainOrphans process fuel newHash

/-- The part of `process_block` after the parent was found. -/
def processKnown (process : Block → Run ChainState String (Nat × Hash32)) (fuel : Nat) (b : Block) :
    Run ChainState String (Nat × Hash32) := do
  let s ← read
  let p := place C E s b
  lift (checkPlacement C E s b p)
  let advanced ← indexAndAdopt C E A b p
  let s ← read
  drainOrphans process fuel (tipHash C E s)
  update (pruneCaches C E)
  let s ← read
  lift (failIf (advanced = false ∧ tipHash C E s ≠ p.hash) "block stored on side chain")
  return (s.height, tipHash C E s)

/-- Orphans are processed by recursive calls; the bound is on their depth and on the loops. -/
def processBlock : Nat → Block → Run ChainState String (Nat × Hash32)
  | 0, _ => fail "recursion does not end"
  | fuel + 1, b => do
    let s ← read
    if b.header.prevHash ≠ ByteVec.zero 32 ∧ b.header.prevHash ∉ s.blockStore then do
      update (addOrphan A · b)
      fail "block stored as orphan (prev hash unknown)"
    else processKnown C E A (processBlock fuel) fuel b

end ChainState

end IriumConsensus
