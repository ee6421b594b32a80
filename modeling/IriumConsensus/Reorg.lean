import Mathlib.Data.Prod.Lex
import IriumConsensus.Connect

namespace IriumConsensus

open ByteCodec Checks Stateful

/-- A proposer's round and the priority of its VRF output; the lower rank is the better one. -/
abbrev ProposerRank := Nat ×ₗ Nat

def ProposerAssignmentV1.rank (pa : ProposerAssignmentV1) : ProposerRank :=
  toLex (pa.round.toNat, proposerPriority pa.proof.vrfOutput)

def blockProposerRank (b : Block) : ProposerRank :=
  match b.extensions.filterMap fun p => p.2.proposerAssignment with
  | [] => toLex (u32Max, u64Max)
  | pa :: rest => rest.foldl (fun best pa => min best pa.rank) pa.rank

/-- The comparison at the first height where two branches differ in rank. -/
def firstRankDifference : List Block → List Block → Option Bool
  | c :: candidate, m :: current =>
    if blockProposerRank c ≠ blockProposerRank m then some (decide (blockProposerRank c < blockProposerRank m))
    else firstRankDifference candidate current
  | _, _ => none

variable (C : Crypto) (E : NodeEnv) (A : Ambient)

namespace ChainState

variable (s : ChainState)

def walkBack : Nat → Hash32 → List Block → Except String (Nat × List Block)
  | 0, _, _ => .error "reorg path does not end"
  | fuel + 1, cur, branch =>
    match isHashOnMainChain C E s cur with
    | some h => .ok (h, branch)
    | none => do
      let b ← orFail (blockByHash s cur) "missing block for reorg path"
      failIf (b.header.prevHash = ByteVec.zero 32) "reorg path has no common ancestor"
      walkBack fuel b.header.prevHash (b :: branch)

def findReorgPath (newTip : Hash32) : Except String (Nat × List Block) :=
  walkBack C E s (s.blockStore.keys.card + s.heights.keys.card + 1) newTip []

/-- Equal ranks are decided by the tip hash under hardening, by the length before it. -/
def proposerRankChainBetter (candidateTip : Hash32) : Except String Bool := do
  let path ← findReorgPath C E s candidateTip
  let current := s.chain.drop (path.1 + 1)
  return match firstRankDifference path.2 current with
    | some better => better
    | none =>
      if forkChoiceHardeningActive E s.tipHeight then decide (candidateTip.toNat < (tipHash C E s).toNat)
      else decide (current.length < path.2.length)

/-- Disconnect blocks until the tip is the ancestor; the tip comes first in the result. -/
def disconnectTo (ancestorHeight : Nat) : Nat → Run ChainState String (List Block)
  | 0 => pure []
  | fuel + 1 => do
    let s ← read
    if s.tipHeight ≤ ancestorHeight then pure []
    else do
      let b ← disconnectTipBlock C E
      let rest ← disconnectTo ancestorHeight fuel
      return b :: rest

def disconnectTips : Nat → Run ChainState String Unit
  | 0 => pure ()
  | n + 1 => do
    let _ ← attempt (disconnectTipBlock C E)
    disconnectTips n

def reconnect : List Block → Run ChainState String Unit
  | [] => pure ()
  | b :: rest => do
    let _ ← attempt (connectBlock C E A b)
    reconnect rest

def connectBranch (disconnected : List Block) : List Block → Nat → Run ChainState String Unit
  | [], _ => pure ()
  | b :: rest, connected => do
    let result ← attempt (connectBlock C E A b)
    match result with
    | .ok _ => connectBranch disconnected rest (connected + 1)
    | .error e => do
      disconnectTips C E connected
      reconnect C E A disconnected.reverse
      fail ("reorg connect failed: " ++ e)

def checkReorg (ancestorHeight : Nat) : Except String Unit := do
  let depth := s.tipHeight - ancestorHeight
  failIf (forkChoiceHardeningActive E s.tipHeight ∧ maxReorgDepth E < depth)
    s!"reorg rejected: depth {depth} exceeds max-reorg-depth cap {maxReorgDepth E} (hardening backstop)"
  failIf (ancestorHeight < s.finalizedHeight)
    s!"reorg rejected: fork ancestor height {ancestorHeight} is at/below finalized height {s.finalizedHeight} (finality-checkpoint protection)"

def switchBranch (ancestorHeight : Nat) (newBranch : List Block) : Run ChainState String Unit := do
  let s ← read
  let disconnected ← disconnectTo C E ancestorHeight s.chain.length
  connectBranch C E A disconnected newBranch 0
  update fun s => { s with
    reorgOrphanedBlocks := s.reorgOrphanedBlocks ++ disconnected.filter fun b => b.receipts ≠ [] }

def reorgToTip (newTip : Hash32) : Run ChainState String Unit := do
  let s ← read
  let path ← lift (findReorgPath C E s newTip)
  if s.tipHeight ≤ path.1 then pure ()
  else do
    lift (checkReorg E s path.1)
    switchBranch C E A path.1 path.2

end ChainState

end IriumConsensus
