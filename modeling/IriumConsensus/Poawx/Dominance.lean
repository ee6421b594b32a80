import IriumConsensus.Poawx.Penalty

namespace IriumConsensus

open FinMaps

inductive RoleRewardKind where
  | primary
  | compute
  | verify
  | support
  deriving DecidableEq, Repr

def satAdd64 (a b : Nat) : Nat := min (a + b) u64Max

structure DominanceBucket where
  primary : Nat := 0
  compute : Nat := 0
  verify : Nat := 0
  support : Nat := 0
  total : Nat := 0
  validRoleCount : Nat := 0
  lastRewardHeight : Nat := 0
  deriving DecidableEq, Repr

def DominanceBucket.isEmpty (b : DominanceBucket) : Bool :=
  b.primary = 0 ∧ b.compute = 0 ∧ b.verify = 0 ∧ b.support = 0 ∧ b.total = 0 ∧ b.validRoleCount = 0

def DominanceBucket.mapRole (b : DominanceBucket) (kind : RoleRewardKind) (f : Nat → Nat) : DominanceBucket :=
  match kind with
  | .primary => { b with primary := f b.primary }
  | .compute => { b with compute := f b.compute }
  | .verify => { b with verify := f b.verify }
  | .support => { b with support := f b.support }

def DominanceBucket.add (b : DominanceBucket) (kind : RoleRewardKind) (amount height : Nat) : DominanceBucket :=
  { b.mapRole kind (satAdd64 · amount) with
    total := satAdd64 b.total amount
    validRoleCount := satAdd64 b.validRoleCount 1
    lastRewardHeight := max b.lastRewardHeight height }

def DominanceBucket.sub (b : DominanceBucket) (kind : RoleRewardKind) (amount : Nat) : DominanceBucket :=
  { b.mapRole kind (· - amount) with
    total := b.total - amount
    validRoleCount := b.validRoleCount - 1 }

structure PersistentDominance where
  windowLen : Nat
  lookback : Nat
  buckets : FinMap (Pkh × Nat) DominanceBucket := ∅
  deriving DecidableEq

def defaultAntiDominationWindow : Nat := 2016
def defaultAntiDominationLookback : Nat := 2
def pruneMarginWindows : Nat := 8

def PersistentDominance.new (windowLen lookback : Nat) : PersistentDominance :=
  ⟨max windowLen 1, max lookback 1, ∅⟩

def positiveOr (v : Option Nat) (default : Nat) : Nat := (v.filter fun w => decide (1 ≤ w)).getD default

def antiDominationWindow (E : NodeEnv) : Nat :=
  positiveOr (E.number .antiDominationWindow) defaultAntiDominationWindow

def antiDominationLookback (E : NodeEnv) : Nat :=
  positiveOr (E.number .antiDominationLookback) defaultAntiDominationLookback

def PersistentDominance.fromEnv (E : NodeEnv) : PersistentDominance :=
  .new (antiDominationWindow E) (antiDominationLookback E)

namespace PersistentDominance

variable (d : PersistentDominance)

def windowId (height : Nat) : Nat := height / d.windowLen

def recentRange (height : Nat) : Nat × Nat :=
  (d.windowId height - (d.lookback - 1), d.windowId height)

def prune (height : Nat) : PersistentDominance :=
  let keepFloor := d.windowId height - (d.lookback - 1 + pruneMarginWindows) % 2 ^ 64
  if keepFloor = 0 then d
  else { d with buckets := retain (fun key _ => decide (keepFloor ≤ key.2)) d.buckets }

def applyEvent (pkh : Pkh) (kind : RoleRewardKind) (amount height : Nat) : PersistentDominance :=
  let key := (pkh, d.windowId height)
  let bucket := ((d.buckets.lookup key).getD {}).add kind amount height
  prune { d with buckets := d.buckets.insert key bucket } height

def revertEvent (pkh : Pkh) (kind : RoleRewardKind) (amount height : Nat) : PersistentDominance :=
  let key := (pkh, d.windowId height)
  match d.buckets.lookup key with
  | some b =>
    if (b.sub kind amount).isEmpty then { d with buckets := d.buckets.erase key }
    else { d with buckets := d.buckets.insert key (b.sub kind amount) }
  | none => d

def recentTotal (pkh : Pkh) (height : Nat) : Nat :=
  let (lo, hi) := d.recentRange height
  (List.range' lo (hi + 1 - lo)).foldl
    (fun sum wid => satAdd64 sum (((d.buckets.lookup (pkh, wid)).map DominanceBucket.total).getD 0)) 0

/-- A saturating sum does not depend on the order of its terms. -/
def networkRecentTotal (height : Nat) : Nat :=
  let (lo, hi) := d.recentRange height
  min (total DominanceBucket.total (retain (fun key _ => decide (lo ≤ key.2 ∧ key.2 ≤ hi)) d.buckets)) u64Max

def recentRewardSharePermille (pkh : Pkh) (height : Nat) : Nat :=
  if d.networkRecentTotal height = 0 then 0
  else min (d.recentTotal pkh height * 1000 / d.networkRecentTotal height) 1000

end PersistentDominance

def fairnessWeight (validWorkScore sharePermille : Nat) : Nat :=
  validWorkScore * 1000 / (1000 + sharePermille) % 2 ^ 64

def PersistentDominance.weight (d : PersistentDominance) (validWorkScore : Nat) (pkh : Pkh) (height : Nat) : Nat :=
  fairnessWeight validWorkScore (d.recentRewardSharePermille pkh height)

def dominanceBaseWorkScore : Nat := 1000

section

variable (E : NodeEnv) (height : Nat)

def antiDominationActive : Bool := poawxGate E .antiDomination height
def antiDominationEnforced : Bool := poawxEnforced E .antiDomination .antiDomination height

end

end IriumConsensus
