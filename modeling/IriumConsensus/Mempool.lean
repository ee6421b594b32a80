import Mathlib.Algebra.Order.Ring.Rat
import IriumConsensus.Connect

namespace IriumConsensus

open ByteCodec Checks FinMaps Stateful

inductive MempoolPriority where
  | zeroFeeAllowed
  | standard
  deriving DecidableEq, Repr

def MempoolPriority.rank : MempoolPriority → Nat
  | .zeroFeeAllowed => 0
  | .standard => 1

structure MempoolEntry where
  tx : Transaction
  raw : Bytes
  fee : Nat
  feePerByte : Rat
  priority : MempoolPriority
  deriving DecidableEq

inductive IpAddr where
  | v4 (address : BitVec 32)
  | v6 (address : BitVec 128)
  deriving DecidableEq

def IpAddr.isLoopback : IpAddr → Bool
  | .v4 address => address.toNat / 2 ^ 24 = 127
  | .v6 address => address.toNat = 1

/-- The `MempoolManager`: what is pending, its limits, and when an address last sent a free transaction. -/
structure Mempool where
  entries : FinMap Hash32 MempoolEntry
  maxEntries : Nat
  minFeePerByte : Rat
  minTotalFee : Nat
  headerRelayLastSeen : FinMap IpAddr Int

structure AddOutcome where
  txid : Hash32
  evicted : Option Hash32
  deriving DecidableEq, Repr

def headerRelayPerIpIntervalSecs : Nat := 600

def Transaction.carries (tx : Transaction) (chain : ForeignChain) : Bool :=
  tx.outputs.any fun out => (chain.parseBatch out.scriptPubkey).isOk

/-- Whole seconds from `earlier` to `now`; nothing when the clock has gone back. -/
def durationSince (now earlier : Int) : Option Nat := if earlier ≤ now then some (now - earlier).toNat else none

def withinInterval (now earlier : Int) : Bool :=
  (durationSince now earlier).any fun d => d < headerRelayPerIpIntervalSecs

def feeRate (fee size : Nat) : Rat := if 0 < size then fee / size else 0

namespace Mempool

variable (A : Ambient) (m : Mempool)

def pendingCarrier (chain : ForeignChain) : Bool := !decide (∀ p ∈ m.entries.entries, p.2.tx.carries chain = false)

def checkCarrier (chain : ForeignChain) (tx : Transaction) : Except String Unit :=
  failIf (tx.carries chain ∧ m.pendingCarrier chain)
    (match chain with
      | .btc => "duplicate_btc_header_batch_pending"
      | .ltc => "duplicate_ltc_header_batch_pending")

def gcHeaderRelayRateTable (now : Int) : Mempool :=
  { m with headerRelayLastSeen := retain (fun _ t => withinInterval now t) m.headerRelayLastSeen }

def limitedIp (priority : MempoolPriority) (peerIp : Option IpAddr) : Option IpAddr :=
  if priority = .zeroFeeAllowed then peerIp.filter fun ip => !ip.isLoopback else none

/-- The entry that `pick_eviction_target` compares as the lesser. -/
def evictedBefore (a b : MempoolEntry) : Prop :=
  a.priority.rank < b.priority.rank ∨ a.priority.rank = b.priority.rank ∧ a.feePerByte ≤ b.feePerByte

instance (a b : MempoolEntry) : Decidable (evictedBefore a b) := inferInstanceAs (Decidable (_ ∨ _))

def lowestKeys : Finset Hash32 :=
  m.entries.keys.filter fun k => ∀ e ∈ m.entries.lookup k, ∀ p ∈ m.entries.entries, evictedBefore e p.2

def pickEvictionTarget (incomingPriority : MempoolPriority) (incomingFpb : Rat) : Option Hash32 :=
  if h : m.lowestKeys.Nonempty then
    let txid := (A.firstKey m.lowestKeys h).1
    (m.entries.lookup txid).bind fun lowest =>
      if lowest.priority.rank < incomingPriority.rank ∨
          (incomingPriority.rank = lowest.priority.rank ∧ lowest.feePerByte < incomingFpb)
      then some txid else none
  else none

def evictFor (priority : MempoolPriority) (feePerByte : Rat) : Except String (Option Hash32) :=
  if m.maxEntries ≤ m.entries.keys.card then
    (orFail (m.pickEvictionTarget A priority feePerByte) "Mempool full and fee/priority too low").map some
  else .ok none

def insertEntry (txid : Hash32) (entry : MempoolEntry) (evicted : Option Hash32) : Mempool :=
  { m with entries := (eraseAll m.entries evicted.toList).insert txid entry }

def recordIp (ip : Option IpAddr) (now : Int) : Mempool :=
  { m with headerRelayLastSeen := insertAll m.headerRelayLastSeen (ip.toList.map fun a => (a, now)) }

end Mempool

open Mempool

variable (C : Crypto) (A : Ambient)

/-- What an addition does before the pool is written to disk. -/
def admitTransaction (tx : Transaction) (raw : Bytes) (fee : Nat) (priority : MempoolPriority)
    (peerIp : Option IpAddr) : Run Mempool String AddOutcome := do
  let txid := tx.txid C
  let m ← read
  lift (failIf (txid ∈ m.entries) "Transaction already in mempool")
  lift (m.checkCarrier .btc tx)
  lift (m.checkCarrier .ltc tx)
  let ip := limitedIp priority peerIp
  update fun m => if ip.isSome then m.gcHeaderRelayRateTable A.now else m
  let m ← read
  lift (failIf (∃ a ∈ ip, ∃ t ∈ m.headerRelayLastSeen.lookup a, withinInterval A.now t)
    "header_relay_rate_limit_per_ip")
  let feePerByte := feeRate fee raw.length
  lift (failIf (priority = .standard ∧ feePerByte < m.minFeePerByte) "Fee per byte below minimum policy")
  lift (failIf (priority = .standard ∧ fee < m.minTotalFee) "Fee below minimum total policy")
  let evicted ← lift (m.evictFor A priority feePerByte)
  update fun m => m.insertEntry txid ⟨tx, raw, fee, feePerByte, priority⟩ evicted
  return ⟨txid, evicted⟩

/-- An addition whose write to disk ends as `persisted` says. -/
def addTransactionPersisting (tx : Transaction) (raw : Bytes) (fee : Nat) (priority : MempoolPriority)
    (peerIp : Option IpAddr) (persisted : Except String Unit) : Run Mempool String AddOutcome := do
  let outcome ← admitTransaction C A tx raw fee priority peerIp
  lift persisted
  update fun m => m.recordIp (limitedIp priority peerIp) A.now
  return outcome

/-- An addition whose write to disk succeeds. -/
def addTransactionWithPriority (tx : Transaction) (raw : Bytes) (fee : Nat) (priority : MempoolPriority)
    (peerIp : Option IpAddr) : Run Mempool String AddOutcome :=
  addTransactionPersisting C A tx raw fee priority peerIp (.ok ())

def addTransaction (tx : Transaction) (raw : Bytes) (fee : Nat) : Run Mempool String AddOutcome :=
  addTransactionWithPriority C A tx raw fee .standard none

namespace ChainState

variable (E : NodeEnv) (s : ChainState)

def validateTransaction (tx : Transaction) : Except String Unit := do
  failIf (tx.inputs = []) "Transaction must have at least one input"
  failIf (tx.outputs = []) "Transaction must have at least one output"
  discard (validateTransactionInternal C E s.params s.toLedger tx s.height ⟨[], 0, ⟨[], []⟩⟩)

def calculateFees (tx : Transaction) : Except String Nat := do
  let acc ← validateTransactionInternal C E s.params s.toLedger tx s.height ⟨[], 0, ⟨[], []⟩⟩
  return acc.fees.toNat

end ChainState

end IriumConsensus
