import IriumConsensus.ApplyTransactions
import IriumConsensus.Poawx.Adaptive

namespace IriumConsensus

open ByteCodec Checks FinMaps

structure HeaderWork where
  header : BlockHeader
  height : Nat
  work : Nat
  deriving DecidableEq, Repr

structure AnchorHeader where
  height : Nat
  hash : String
  deriving DecidableEq, Repr

structure PoawxState where
  dominance : PersistentDominance
  proposerRegistry : ProposerEligibilityRegistry := {}
  proposerRegQueue : List ProposerRegistrationV1 := []
  penalty : PersistentPenalty := {}
  adaptiveMode : AdaptiveMode := .normal
  reorgSignal : Nat := 0
  deriving DecidableEq

structure BlockIndex where
  headers : FinMap Hash32 HeaderWork := ∅
  headerChain : List Hash32 := []
  orphanPool : FinMap Hash32 (List Block) := ∅
  blockStore : FinMap Hash32 Block := ∅
  heights : FinMap Hash32 Nat := ∅
  cumulativeWork : FinMap Hash32 Nat := ∅
  deriving DecidableEq

structure ChainState extends Ledger, PoawxState, BlockIndex where
  params : ChainParams
  height : Nat
  chain : List Block
  totalWork : Nat
  issued : Nat
  anchors : Option (List AnchorHeader) := none
  bestTip : Hash32
  undoLogs : FinMap Hash32 BlockUndo := ∅
  reorgOrphanedBlocks : List Block := []
  finalizedHeight : Nat := 0
  deriving DecidableEq

/-- What a call reads besides its arguments: the clock, the node's candidate admissions and the
key that comes first in the iteration order of a hash table. -/
structure Ambient where
  now : Int
  admittedCandidateSet : Nat → Hash32 → CandidateSet
  firstKey : (keys : Finset Hash32) → keys.Nonempty → {k : Hash32 // k ∈ keys}

variable (C : Crypto) (E : NodeEnv)

def headerCacheWindow : Nat := min ((E.number .headerCacheWindow).getD 10000) 200000
def blockStoreWindow : Nat := min ((E.number .blockStoreWindow).getD 5000) 200000

/-- `IRIUM_NETWORK` is exactly `devnet` or `regtest`. -/
def fastMining : Bool := E.network = .devnet

namespace ChainState

variable (s : ChainState)

def tipHeight : Nat := s.height - 1

def blockAt (height : Nat) : Option Block := s.chain[height]?

def tipHash : Hash32 :=
  match s.chain.getLast? with
  | some b => b.header.hashForHeight C E (s.height - 1)
  | none => ByteVec.zero 32

def medianTimePast : Nat :=
  medianOf ((s.chain.drop (s.chain.length - min s.chain.length 11)).map fun b => b.header.time.toNat)

def legacyRetarget (last : Block) (height : Nat) : Target :=
  let interval := difficultyRetargetInterval
  if height < interval ∨ height % interval ≠ 0 ∨ s.chain.length ≤ interval then last.header.target
  else match s.chain[s.chain.length - interval]? with
    | none => last.header.target
    | some prev =>
      let expected : Int := interval * blockTargetIntervalV1
      let actual : Int := (last.header.time.toNat : Int) - prev.header.time.toNat
      let adj := if actual ≤ 0 then expected / 4 else actual
      let adj := if adj * 4 < expected then expected / 4 else if expected * 4 < adj then expected * 4 else adj
      Target.fromTarget (last.header.target.toTarget * adj.toNat / expected.toNat)

def legacyTargetForHeight (height : Nat) : Target :=
  if 0 < height ∧ fastMining E then ⟨0x207fffff⟩
  else if height = 0 then s.params.genesisBlock.header.target
  else match s.chain.getLast? with
    | some last => legacyRetarget s last height
    | none => ⟨0⟩

/-- The weighted solve times and the sum of the targets over consecutive pairs of blocks. -/
def lwmaSums (p : LwmaParams) (maxSolvetime : Nat) : Nat → List Block → Nat × Nat
  | _, [] => (0, 0)
  | _, [_] => (0, 0)
  | weight, previous :: current :: rest =>
    let raw := max (current.header.time.toNat - previous.header.time.toNat) (p.minSolvetime % 2 ^ 32)
    let solvetime := min raw maxSolvetime
    let sums := lwmaSums p maxSolvetime (weight + 1) (current :: rest)
    (weight * solvetime + sums.1, current.header.target.toTarget + sums.2)

def lwmaTargetForHeightWith (p : LwmaParams) (targetHeight : Nat) : Target :=
  if 1 < s.chain.length ∧ fastMining E then ⟨0x207fffff⟩
  else match s.chain.getLast? with
    | none => ⟨0⟩
    | some last =>
      let n := min p.window (s.chain.length - 1)
      if n = 0 then last.header.target
      else
        let sums := lwmaSums p (p.maxSolvetimeAt E targetHeight) 1 (s.chain.drop (s.chain.length - n - 1))
        let avg := max (sums.2 / n) 1
        let expected := blockTargetInterval E targetHeight * (n * (n + 1) / 2)
        let next := max (avg * max sums.1 1 / expected) 1
        let previous := last.header.target.toTarget
        let next := max next (max (previous / max p.maxTargetDownFactor 1) 1)
        let next := min next (previous * max p.maxTargetUpFactor 1)
        Target.fromTarget (min next (min s.params.powLimit.toTarget p.maxTarget.toTarget))

def targetForHeight (height : Nat) : Target :=
  if activeFrom s.params.lwma.activationHeight height = false then legacyTargetForHeight E s height
  else match s.params.lwmaV2 with
    | some v2 =>
      if activeFrom v2.activationHeight height then lwmaTargetForHeightWith E s v2 height
      else lwmaTargetForHeightWith E s s.params.lwma height
    | none => lwmaTargetForHeightWith E s s.params.lwma height

def nativePow (h : BlockHeader) (height : Nat) (target : Target) : Bool :=
  meetsTarget (h.hashForHeight C E height) target ||
    (whatsminerCompatPowHashForHeight C E h height).any fun hash => meetsTarget hash target

def usesAuxpow (b : Block) (height : Nat) : Bool :=
  b.header.version &&& auxpowVersionBit ≠ 0 ∧ activeFrom s.params.auxpowActivationHeight height

/-- Merged-mined blocks prove their work by the parent block, the others by their own header. -/
def checkPow (b : Block) (height : Nat) (target : Target) (err : String) : Except String Unit :=
  if s.usesAuxpow b height then do
    let ap ← orFail b.auxpow "AuxPoW block is missing AuxPoW data"
    auxpowValidate C ap (b.header.serializeForHeight E height) target
  else failIf (nativePow C E b.header height target = false) err

def checkParent (b : Block) (height : Nat) : Except String Unit :=
  match s.chain.getLast? with
  | some prev => failIf (b.header.prevHash ≠ prev.header.hashForHeight C E (height - 1))
      "Block does not extend the current tip"
  | none => failIf (b.header.prevHash ≠ ByteVec.zero 32) "Genesis block must reference null hash"

def checkTime (b : Block) (height : Nat) (now : Int) : Except String Unit := do
  failIf (now + maxFutureBlockTime < (b.header.time.toNat : Int)) "Block timestamp too far in future"
  if mtpActivationHeight ≤ height then
    failIf (b.header.time.toNat ≤ s.medianTimePast) "Block timestamp must be greater than median time past"
  else match s.chain.getLast? with
    | some prev => failIf (b.header.time ≤ prev.header.time) "Block timestamp must be greater than previous block"
    | none => pure ()

def validateBlockHeader (b : Block) (height : Nat) (now : Int) : Except String Unit := do
  checkParent C E s b height
  checkTime s b height now
  failIf (0 < height ∧ b.header.merkleRoot ≠ b.merkleRoot C) "Block merkle root mismatch"
  failIf (b.header.bits ≠ (targetForHeight E s height).bits) "Block bits mismatch"
  checkPow C E s b height (targetForHeight E s height) "Block does not satisfy proof-of-work target"

def pruneHeaderCache : ChainState :=
  if headerCacheWindow E = 0 ∨ s.tipHeight ≤ headerCacheWindow E then s
  else
    let minHeight := s.tipHeight - headerCacheWindow E
    let headers := retain (fun _ hw => decide (minHeight ≤ hw.height)) s.headers
    { s with headers, headerChain := s.headerChain.filter fun h => decide (h ∈ headers) }

def isHashOnMainChain (hash : Hash32) : Option Nat := do
  let h ← s.heights.lookup hash
  let b ← s.chain[h]?
  if b.header.hashForHeight C E h = hash then some h else none

def pruneBlockStore : ChainState :=
  if blockStoreWindow E = 0 ∨ s.tipHeight ≤ blockStoreWindow E then s
  else
    let minHeight := s.tipHeight - blockStoreWindow E
    { s with blockStore :=
        retain (fun hash _ => !(isHashOnMainChain C E s hash).any fun h => decide (h ≤ minHeight)) s.blockStore }

def pruneCaches : ChainState := pruneBlockStore C E (pruneHeaderCache E s)

theorem pruneCaches_eq : ∃ index : BlockIndex, pruneCaches C E s = { s with toBlockIndex := index } := by
  unfold pruneCaches pruneBlockStore pruneHeaderCache
  split_ifs <;> exact ⟨_, rfl⟩

def blockByHash (hash : Hash32) : Option Block :=
  match s.blockStore.lookup hash with
  | some b => some b
  | none => do
    let height ← s.heights.lookup hash
    s.chain[height]?

end ChainState

end IriumConsensus
