import IriumConsensus.Nodes
import IriumConsensus.TxRules
import Mathlib.Algebra.Order.BigOperators.Group.List
import Mathlib.Algebra.Order.Ring.Nat

namespace IriumConsensus

open ByteCodec Checks FinMaps

def OutputEncumbrance.order : OutputEncumbrance → Option SwapOrderOutput
  | .swapOrder order => some order
  | .ltcSwapOrder order => some order
  | _ => none

structure OrderSpend where
  value : UInt64
  order : SwapOrderOutput
  witness : SwapOrderWitness
  deriving DecidableEq, Repr

namespace OrderSpend

def isSweep (s : OrderSpend) : Bool := s.witness = .expireSweep

def isFillBuy (s : OrderSpend) : Bool :=
  match s.witness with
  | .fillBuy .. => true
  | _ => false

def due (s : OrderSpend) : Nat := s.value.toNat - swapOrderMaxSweepFee

def asksFor (maker : Pkh) (hash : Hash32) (amount : UInt64) (s : OrderSpend) : Bool :=
  s.isFillBuy ∧ s.order.makerIriumdPkh = maker ∧ s.order.expectedHash = some hash ∧ s.order.irmAmount = amount

end OrderSpend

section

variable (L : Ledger) (tx : Transaction)

def orderSpend (txin : TxInput) : Option OrderSpend := do
  let entry ← L.utxos.lookup txin.outpoint
  let order ← (parseOutputEncumbrance entry.output.scriptPubkey).order
  let witness ← parseOrderWitness txin.scriptSig order.direction
  return ⟨entry.output.value, order, witness⟩

def orderSpends : List OrderSpend := tx.inputs.filterMap (orderSpend L)

def sweepsOf (maker : Pkh) : List OrderSpend :=
  ((orderSpends L tx).filter OrderSpend.isSweep).filter fun s => s.order.makerIriumdPkh = maker

def paidTo (maker : Pkh) : List TxOutput := tx.outputs.filter fun out => out.scriptPubkey = p2pkhScript maker

def locksHtlc (maker : Pkh) (hash : Hash32) (amount : UInt64) (out : TxOutput) : Bool :=
  out.value = amount ∧
    (parseHtlcv1Script out.scriptPubkey).any fun htlc => htlc.expectedHash = hash ∧ htlc.recipientPkh = maker

/-- Every order is paid for by outputs of its own. -/
structure OrdersCovered : Prop where
  sweeps : ∀ maker, ((sweepsOf L tx maker).map OrderSpend.due).sum ≤
    ((paidTo tx maker).map fun out => out.value.toNat).sum
  fills : ∀ maker hash amount, (orderSpends L tx).countP (OrderSpend.asksFor maker hash amount) ≤
    tx.outputs.countP (locksHtlc maker hash amount)

def SingleOrders : Prop :=
  ((orderSpends L tx).filter OrderSpend.isSweep).length ≤ 1 ∧ (orderSpends L tx).countP OrderSpend.isFillBuy ≤ 1

instance : Decidable (SingleOrders L tx) := inferInstanceAs (Decidable (_ ∧ _))

end

variable {C : Crypto} {E : NodeEnv} {P : ChainParams} {L : Ledger} {height : Nat} {tx : Transaction}
  {acc acc' : TxAcc} {s : OrderSpend}

structure Covenant (tx : Transaction) (s : OrderSpend) : Prop where
  sweep : s.isSweep → ∃ out ∈ tx.outputs, out.scriptPubkey = p2pkhScript s.order.makerIriumdPkh ∧
    s.due ≤ out.value.toNat
  fillBuy : ∀ maker hash amount, s.asksFor maker hash amount →
    ∃ out ∈ tx.outputs, locksHtlc maker hash amount out

theorem verifyOrderSpend_covenant {R : OrderRules} {i : Nat} {txin : TxInput} {value : UInt64}
    {order : SwapOrderOutput} {witness : SwapOrderWitness}
    (h : verifyOrderSpend C R tx i txin value height order)
    (hw : parseOrderWitness txin.scriptSig order.direction = some witness) : Covenant tx ⟨value, order, witness⟩ := by
  unfold verifyOrderSpend at h
  rw [hw] at h
  cases witness with
  | fillSell sig pubkey takerPkh timeout =>
    exact ⟨by simp [OrderSpend.isSweep], by simp [OrderSpend.asksFor, OrderSpend.isFillBuy]⟩
  | cancel sig pubkey =>
    exact ⟨by simp [OrderSpend.isSweep], by simp [OrderSpend.asksFor, OrderSpend.isFillBuy]⟩
  | expireSweep =>
    refine ⟨fun _ => ?_, by simp [OrderSpend.asksFor, OrderSpend.isFillBuy]⟩
    dsimp only at h
    rw [refuse_eq_true] at h
    split at h
    next => simp at h
    next out rest houts =>
      simp only [refuse_eq_true, not_not, decide_eq_true_eq] at h
      exact ⟨out, by rw [houts]; exact List.mem_cons_self, h.2.1, h.2.2⟩
  | fillBuy sig pubkey timeout =>
    refine ⟨by simp [OrderSpend.isSweep], fun maker hash amount hasks => ?_⟩
    simp only [OrderSpend.asksFor, decide_eq_true_eq] at hasks
    obtain ⟨-, rfl, hhash, rfl⟩ := hasks
    dsimp only at h
    rw [hhash] at h
    simp only [refuse_eq_true] at h
    obtain ⟨-, -, -, h⟩ := h
    split at h
    next out rest hash' houts hhash' =>
      cases Option.some.inj hhash'
      simp only [refuse_eq_true, not_not] at h
      refine ⟨out, by rw [houts]; exact List.mem_cons_self, ?_⟩
      simp [locksHtlc, h.1, h.2.1, parse_encodeHtlcv1Script]
    next => simp at h

theorem accepted_covenant (h : validateTransactionInternal C E P L tx height acc = .ok acc')
    (hs : s ∈ orderSpends L tx) : Covenant tx s := by
  obtain ⟨txin, hmem, hspend⟩ := List.mem_filterMap.mp hs
  simp only [orderSpend, Option.bind_eq_bind, Option.bind_eq_some_iff, Option.pure_def, Option.some.injEq] at hspend
  obtain ⟨entry, hentry, order, horder, witness, hw, rfl⟩ := hspend
  obtain ⟨entry', j, c, c', hentry', hv⟩ := validateTransactionInternal_verified h hmem
  cases Option.some.inj (hentry'.symm.trans hentry)
  unfold verifyTransactionSignature at hv
  cases hE : parseOutputEncumbrance entry.output.scriptPubkey with
  | swapOrder found =>
    rw [hE] at horder hv
    cases horder
    dsimp only at hv
    rw [refuse_eq_some, Option.ite_none_right_eq_some] at hv
    exact verifyOrderSpend_covenant hv.2.1 hw
  | ltcSwapOrder found =>
    rw [hE] at horder hv
    cases horder
    dsimp only at hv
    rw [refuse_eq_some, Option.ite_none_right_eq_some] at hv
    exact verifyOrderSpend_covenant hv.2.1 hw
  | _ => simp [hE, OutputEncumbrance.order] at horder

theorem sum_due_le_paid {spends : List OrderSpend} {maker : Pkh} (hone : spends.length ≤ 1)
    (hmaker : ∀ s ∈ spends, s.isSweep ∧ s.order.makerIriumdPkh = maker ∧ Covenant tx s) :
    (spends.map OrderSpend.due).sum ≤ ((paidTo tx maker).map fun out => out.value.toNat).sum := by
  match spends, hone with
  | [], _ => simp
  | [s], _ =>
    obtain ⟨hsweep, rfl, hcov⟩ := hmaker s (List.mem_singleton_self s)
    obtain ⟨out, hout, hscript, hdue⟩ := hcov.sweep hsweep
    have hpaid : out ∈ paidTo tx s.order.makerIriumdPkh := by simp [paidTo, hout, hscript]
    have hle : out.value.toNat ≤ ((paidTo tx s.order.makerIriumdPkh).map fun out => out.value.toNat).sum :=
      List.le_sum_of_mem (List.mem_map_of_mem hpaid)
    simpa using hdue.trans hle

/-- In a transaction that sweeps at most one order and fills at most one, no payment counts twice. -/
theorem orders_covered (h : validateTransactionInternal C E P L tx height acc = .ok acc')
    (hone : SingleOrders L tx) : OrdersCovered L tx := by
  constructor
  · intro maker
    refine sum_due_le_paid ((List.length_filter_le _ _).trans hone.1) fun s hs => ?_
    simp only [sweepsOf, List.mem_filter, decide_eq_true_eq] at hs
    obtain ⟨⟨hmem, hsweep⟩, hmaker⟩ := hs
    exact ⟨hsweep, hmaker, accepted_covenant h hmem⟩
  · intro maker hash amount
    rcases Nat.eq_zero_or_pos ((orderSpends L tx).countP (OrderSpend.asksFor maker hash amount)) with hz | hpos
    · omega
    · obtain ⟨s, hs, hasks⟩ := List.countP_pos_iff.mp hpos
      obtain ⟨out, hout, hlocks⟩ := (accepted_covenant h hs).fillBuy maker hash amount hasks
      have hle : (orderSpends L tx).countP (OrderSpend.asksFor maker hash amount) ≤
          (orderSpends L tx).countP OrderSpend.isFillBuy :=
        List.countP_mono_left fun s _ hasks => by
          simp only [OrderSpend.asksFor, decide_eq_true_eq] at hasks
          exact hasks.1
      have hlock := List.countP_pos_iff.mpr ⟨out, hout, hlocks⟩
      exact (hle.trans hone.2).trans hlock

def expiredOrder (orderId : Nat) : SwapOrderOutput where
  direction := directionBuy
  confirmationsRequired := 1
  irmAmount := 100000
  foreignAmountSats := 5000
  makerIriumdPkh := keyOnePkh
  makerForeignPkh := keyOnePkh
  expiryHeight := 25000
  orderId := beVec 8 orderId
  expectedHash := some (beVec 32 7)

def orderOutpoint (txid : Nat) : OutPoint := ⟨beVec 32 txid, 0⟩

def orderLedger : Ledger where
  utxos := ((∅ : FinMap OutPoint UtxoEntry).insert (orderOutpoint 1)
      ⟨⟨2000, encodeSwapOrderScript (expiredOrder 1)⟩, 24000, false⟩).insert (orderOutpoint 2)
      ⟨⟨2000, encodeSwapOrderScript (expiredOrder 2)⟩, 24000, false⟩
  btc := ⟨Relay.empty, ∅⟩
  ltc := ⟨Relay.empty, ∅⟩

def sweepInput (txid : Nat) : TxInput := ⟨beVec 32 txid, 0, [3], 0xffffffff⟩

def mainnetParams : ChainParams := nodeParams mainnetNode none none lockedGenesis

def sweepOne : Transaction where
  version := 1
  inputs := [sweepInput 1]
  outputs := [⟨1000, p2pkhScript keyOnePkh⟩, ⟨1000, p2pkhScript (ByteVec.zero 20)⟩]
  locktime := 0

theorem single_sweep_covered : OrdersCovered orderLedger sweepOne :=
  have h : validateTransactionInternal shaCrypto mainnetNode mainnetParams orderLedger sweepOne 25001
      ⟨[], 0, ⟨[], []⟩⟩ = .ok ⟨[orderOutpoint 1], 0, ⟨[], []⟩⟩ := by decide
  orders_covered h (by decide)

/-- One payment to the maker answers for both orders; the rest goes to whoever sweeps. -/
def sweepBoth : Transaction where
  version := 1
  inputs := [sweepInput 1, sweepInput 2]
  outputs := [⟨1000, p2pkhScript keyOnePkh⟩, ⟨3000, p2pkhScript (ByteVec.zero 20)⟩]
  locktime := 0

theorem double_sweep_uncovered :
    validateTransactionInternal shaCrypto mainnetNode mainnetParams orderLedger sweepBoth 25001
        ⟨[], 0, ⟨[], []⟩⟩ = .ok ⟨[orderOutpoint 1, orderOutpoint 2], 0, ⟨[], []⟩⟩ ∧
      ¬ OrdersCovered orderLedger sweepBoth := by
  refine ⟨by decide, fun hcov => ?_⟩
  -- the orders are owed 2000 and the maker gets 1000
  exact absurd (hcov.sweeps keyOnePkh) (by decide)

end IriumConsensus
