import IriumConsensus.Nodes
import IriumConsensus.Settlement.Anchor
import IriumConsensus.Settlement.Payout
import Mathlib.Algebra.Order.BigOperators.Group.List
import Mathlib.Algebra.Order.Group.Nat

namespace IriumConsensus

open ByteCodec Checks

variable {funded released refunded : UInt64}

inductive AgreementLifecycleState where
  | draft
  | proposed
  | funded
  | partiallyReleased
  | released
  | refunded
  | expired
  | cancelled
  | disputedMetadataOnly
  deriving DecidableEq, Repr

structure AgreementLinkedTx where
  txid : String
  role : AgreementAnchorRole
  milestoneId : Option String
  height : Option Nat
  confirmed : Bool
  value : UInt64
  deriving DecidableEq, Repr

structure AgreementMilestoneStatus where
  milestoneId : String
  title : String
  amount : UInt64
  funded : Bool
  released : Bool
  refunded : Bool
  deriving DecidableEq, Repr

structure AgreementLifecycleView where
  state : AgreementLifecycleState
  agreementHash : String
  fundedAmount : UInt64
  releasedAmount : UInt64
  refundedAmount : UInt64
  milestones : List AgreementMilestoneStatus
  linkedTxs : List AgreementLinkedTx
  deriving DecidableEq, Repr

section

def agreementAnchorValue (a : AgreementObject) (role : AgreementAnchorRole) (milestoneId : Option String) : UInt64 :=
  match milestoneId.bind fun mid => a.milestones.find? fun m => m.milestoneId = mid with
  | some ms => ms.amount
  | none =>
    match role with
    | .depositLock | .collateralLock => (a.depositRule.map AgreementDepositRule.amount).getD a.totalAmount
    | _ => a.totalAmount

def anchorsOf (hash : String) (tx : Transaction) : List AgreementAnchor :=
  tx.outputs.filterMap fun output =>
    (parseAgreementAnchor output.scriptPubkey).filter fun anchor => anchor.agreementHash = hash

def located (chain : List Block) : List (Nat × Transaction) :=
  chain.zipIdx.flatMap fun entry => entry.1.transactions.map fun tx => (entry.2, tx)

variable (C : Crypto) (a : AgreementObject) (hash : String)

def linksOf (entry : Nat × Transaction) : List AgreementLinkedTx :=
  (anchorsOf hash entry.2).map fun anchor =>
    { txid := encodeHex (entry.2.txid C).bytes
      role := anchor.role
      milestoneId := anchor.milestoneId
      height := some entry.1
      confirmed := true
      value := agreementAnchorValue a anchor.role anchor.milestoneId }

def linkOrder (t u : AgreementLinkedTx) : Ordering :=
  (compare u.height t.height).then ((compare t.txid u.txid).then (compare t.milestoneId u.milestoneId))

def scanAgreementLinkedTxs (chain : List Block) : List AgreementLinkedTx :=
  ((located chain).flatMap (linksOf C a hash)).insertionSort fun t u => linkOrder t u ≠ .gt

end

section

def AgreementAnchorRole.funds : AgreementAnchorRole → Bool
  | funding | depositLock | otcSettlement | merchantSettlement => true
  | _ => false

def AgreementAnchorRole.releases : AgreementAnchorRole → Bool
  | release | milestoneRelease => true
  | _ => false

def AgreementAnchorRole.refunds (role : AgreementAnchorRole) : Bool := role == refund

def linkedAmount (counts : AgreementAnchorRole → Bool) (linked : List AgreementLinkedTx) : UInt64 :=
  ((linked.filter fun t => counts t.role).map AgreementLinkedTx.value).sum

def milestoneStatus (linked : List AgreementLinkedTx) (m : AgreementMilestone) : AgreementMilestoneStatus :=
  let seen (role : AgreementAnchorRole) : Bool :=
    linked.any fun t => t.role == role && t.milestoneId == some m.milestoneId
  { milestoneId := m.milestoneId
    title := m.title
    amount := m.amount
    funded := seen .funding
    released := seen .milestoneRelease
    refunded := seen .refund }

def lifecycleState (a : AgreementObject) (funded released refunded : UInt64) (anyRefund : Bool) (tipHeight : Nat) :
    AgreementLifecycleState :=
  if a.disputedMetadataOnly then .disputedMetadataOnly
  else if 0 < refunded ∨ anyRefund then .refunded
  else if a.totalAmount ≤ released ∧ 0 < released then .released
  else if 0 < released then .partiallyReleased
  else if 0 < funded then
    if ((a.refundConditions.map AgreementRefundCondition.timeoutHeight).min?).getD (2 ^ 64 - 1) ≤ tipHeight then .expired
    else .funded
  else if a.deadlines.settlementDeadline.any fun d => d ≤ tipHeight then .expired
  else .proposed

def deriveLifecycle (a : AgreementObject) (hash : String) (linked : List AgreementLinkedTx) (tipHeight : Nat) :
    AgreementLifecycleView :=
  let funded := linkedAmount AgreementAnchorRole.funds linked
  let released := linkedAmount AgreementAnchorRole.releases linked
  let refunded := linkedAmount AgreementAnchorRole.refunds linked
  { state := lifecycleState a funded released refunded (linked.any fun t => t.role.refunds) tipHeight
    agreementHash := hash
    fundedAmount := funded
    releasedAmount := released
    refundedAmount := refunded
    milestones := a.milestones.map (milestoneStatus linked)
    linkedTxs := linked }

end

section

structure SettlementFundingLeg where
  role : AgreementAnchorRole
  milestoneId : Option String
  amount : UInt64
  output : TxOutput
  deriving DecidableEq, Repr

def secretHash (hex err : String) : Except String Hash32 :=
  orFail ((decodeHex hex).bind fun bytes => if h : bytes.length = 32 then some ⟨bytes, h⟩ else none) err

def AgreementTemplateType.legRole : AgreementTemplateType → AgreementAnchorRole
  | refundableDeposit => .depositLock
  | otcSettlement => .otcSettlement
  | merchantDelayedSettlement => .merchantSettlement
  | _ => .funding

variable (a : AgreementObject) (payerPkh payeePkh : Pkh)

def fundingLeg (role : AgreementAnchorRole) (milestoneId : Option String) (amount : UInt64) (expectedHash : Hash32)
    (timeoutHeight : Nat) : SettlementFundingLeg where
  role
  milestoneId
  amount
  output := ⟨amount, encodeHtlcv1Script ⟨expectedHash, payeePkh, payerPkh, UInt64.ofNat timeoutHeight⟩⟩

def milestoneLeg (m : AgreementMilestone) : Except String SettlementFundingLeg := do
  let hash ← secretHash m.secretHashHex "invalid milestone secret hash"
  return fundingLeg payerPkh payeePkh .funding (some m.milestoneId) m.amount hash m.timeoutHeight

def singleLeg : Except String SettlementFundingLeg := do
  let release ← orFail (a.releaseConditions.find? fun c => c.mode = "secret_preimage")
    "simple agreement requires secret_preimage release condition"
  let secretHashHex ← orFail release.secretHashHex "secret_preimage release condition requires secret_hash_hex"
  let hash ← secretHash secretHashHex "invalid secret_hash_hex"
  let refund ← orFail a.refundConditions.head? "refund condition required"
  return fundingLeg payerPkh payeePkh a.templateType.legRole none a.totalAmount hash refund.timeoutHeight

def buildFundingLegs : Except String (List SettlementFundingLeg) := do
  a.validate
  match a.templateType with
  | .milestoneSettlement | .contractorMilestone => a.milestones.mapM (milestoneLeg payerPkh payeePkh)
  | _ => return [← singleLeg a payerPkh payeePkh]

def htlcOutputs : List TxOutput :=
  match buildFundingLegs a payerPkh payeePkh with
  | .ok legs => legs.map SettlementFundingLeg.output
  | .error _ => []

end

section

variable (C : Crypto) (outs : List TxOutput) (chain : List Block) (a : AgreementObject) (hash : String)

def createdValue (tx : Transaction) : Nat :=
  ((tx.outputs.filter fun out => out ∈ outs).map fun out => out.value.toNat).sum

def spentOutput (inp : TxInput) : Option TxOutput :=
  ((located chain).find? fun entry => entry.2.txid C = inp.prevTxid).bind fun entry =>
    (entry.2.outputs[inp.prevIndex.toNat]?).filter fun out => out ∈ outs

def spentValue (tx : Transaction) : Nat :=
  ((tx.inputs.filterMap (spentOutput C outs chain)).map fun out => out.value.toNat).sum

def totalCreated : Nat := ((located chain).map fun entry => createdValue outs entry.2).sum

def totalSpent : Nat := ((located chain).map fun entry => spentValue C outs chain entry.2).sum

/-- The amounts and the state that are reported stand for money in these outputs and for spends of them. -/
structure MoneyBacked (view : AgreementLifecycleView) : Prop where
  funded : view.fundedAmount.toNat ≤ totalCreated outs chain
  paid : view.releasedAmount.toNat + view.refundedAmount.toNat ≤ totalSpent C outs chain
  fundedState : view.state = .funded → 0 < totalCreated outs chain
  partialState : view.state = .partiallyReleased → 0 < totalSpent C outs chain
  releasedState : view.state = .released → a.totalAmount.toNat ≤ totalSpent C outs chain
  refundedState : view.state = .refunded → 0 < totalSpent C outs chain

/-- The transaction neither creates nor spends one of these outputs. -/
def Foreign (tx : Transaction) : Prop :=
  (∀ out ∈ tx.outputs, out ∉ outs) ∧ ∀ inp ∈ tx.inputs, spentOutput C outs chain inp = none

def Adds (height : Nat) (tx : Transaction) (chain chain' : List Block) : Prop :=
  (located chain').Perm ((height, tx) :: located chain)

def reported (tipHeight : Nat) : AgreementLifecycleState × UInt64 × UInt64 × UInt64 :=
  let view := deriveLifecycle a hash (scanAgreementLinkedTxs C a hash chain) tipHeight
  (view.state, view.fundedAmount, view.releasedAmount, view.refundedAmount)

def announced (counts : AgreementAnchorRole → Bool) (tx : Transaction) : Nat :=
  (((anchorsOf hash tx).filter fun anchor => counts anchor.role).map fun anchor =>
    (agreementAnchorValue a anchor.role anchor.milestoneId).toNat).sum

def announcesRefund (tx : Transaction) : Bool := (anchorsOf hash tx).any fun anchor => anchor.role.refunds

structure Honest (tx : Transaction) : Prop where
  funds : announced a hash AgreementAnchorRole.funds tx ≤ createdValue outs tx
  pays : announced a hash AgreementAnchorRole.releases tx + announced a hash AgreementAnchorRole.refunds tx ≤
    spentValue C outs chain tx
  refunds : announcesRefund hash tx → 0 < spentValue C outs chain tx

/-- The anchors of the transaction add nothing to any sum, and a refund among them is not the first. -/
structure Silent (tx : Transaction) : Prop where
  funds : announced a hash AgreementAnchorRole.funds tx % 2 ^ 64 = 0
  releases : announced a hash AgreementAnchorRole.releases tx % 2 ^ 64 = 0
  refunds : announced a hash AgreementAnchorRole.refunds tx % 2 ^ 64 = 0
  refund : announcesRefund hash tx →
    a.disputedMetadataOnly ∨ ∃ entry ∈ located chain, announcesRefund hash entry.2

end

section

variable {C : Crypto} {a : AgreementObject} {hash : String} {chain : List Block} {tx : Transaction} {tipHeight : Nat}
  {counts : AgreementAnchorRole → Bool}

theorem toNat_sum (xs : List UInt64) : xs.sum.toNat = (xs.map UInt64.toNat).sum % 2 ^ 64 := by
  induction xs with
  | nil => rfl
  | cons x xs ih => rw [List.sum_cons, UInt64.toNat_add, ih, List.map_cons, List.sum_cons, Nat.add_mod_mod]

theorem scan_perm : (scanAgreementLinkedTxs C a hash chain).Perm ((located chain).flatMap (linksOf C a hash)) :=
  List.perm_insertionSort _ _

theorem linkedAmount_links (entry : Nat × Transaction) :
    (((linksOf C a hash entry).filter fun t => counts t.role).map fun t => t.value.toNat).sum =
      announced a hash counts entry.2 := by
  rw [linksOf, List.filter_map, List.map_map, announced]
  rfl

theorem linkedAmount_scan (C : Crypto) (a : AgreementObject) (hash : String) (chain : List Block)
    (counts : AgreementAnchorRole → Bool) : (linkedAmount counts (scanAgreementLinkedTxs C a hash chain)).toNat =
    ((located chain).map fun entry => announced a hash counts entry.2).sum % 2 ^ 64 := by
  have hscan : (scanAgreementLinkedTxs C a hash chain).Perm ((located chain).flatMap (linksOf C a hash)) := scan_perm
  have hperm := (hscan.filter fun t => counts t.role).map fun t => t.value.toNat
  have hsum : (((scanAgreementLinkedTxs C a hash chain).filter fun t => counts t.role).map fun t => t.value.toNat).sum =
      ((located chain).map fun entry => announced a hash counts entry.2).sum := by
    rw [hperm.sum_eq, List.filter_flatMap, List.map_flatMap, List.flatMap_def, List.sum_flatten, List.map_map]
    exact congrArg List.sum (List.map_congr_left fun entry _ => linkedAmount_links entry)
  rw [linkedAmount, toNat_sum, List.map_map, ← hsum]
  rfl

theorem anyRefund_scan : ((scanAgreementLinkedTxs C a hash chain).any fun t => t.role.refunds) =
    (located chain).any fun entry => announcesRefund hash entry.2 := by
  rw [scan_perm.any_eq, List.any_flatMap]
  simp only [linksOf, announcesRefund, List.any_map, Function.comp_def]

theorem announced_refunds (h : announcesRefund hash tx = false) :
    announced a hash AgreementAnchorRole.refunds tx = 0 := by
  have hnone : (anchorsOf hash tx).filter (fun anchor => anchor.role.refunds) = [] :=
    List.filter_eq_nil_iff.mpr fun anchor hmem => by simpa using List.any_eq_false.mp h anchor hmem
  rw [announced, hnone]
  rfl

theorem refundedAmount_pos
    (h : 0 < linkedAmount AgreementAnchorRole.refunds (scanAgreementLinkedTxs C a hash chain)) :
    ((located chain).any fun entry => announcesRefund hash entry.2) := by
  by_contra hnone
  have hzero : ∀ entry ∈ located chain, announced a hash AgreementAnchorRole.refunds entry.2 = 0 := fun entry hmem =>
    announced_refunds (by simpa using List.any_eq_false.mp (Bool.not_eq_true _ ▸ hnone) entry hmem)
  have hsum := linkedAmount_scan C a hash chain AgreementAnchorRole.refunds
  rw [List.sum_eq_zero (List.forall_mem_map.mpr hzero), Nat.zero_mod] at hsum
  exact absurd (UInt64.lt_iff_toNat_lt.mp h) (by rw [hsum]; simp)

theorem lifecycleState_refunded_iff {anyRefund : Bool} :
    lifecycleState a funded released refunded anyRefund tipHeight = .refunded ↔
      a.disputedMetadataOnly = false ∧ (0 < refunded ∨ anyRefund) := by
  unfold lifecycleState
  by_cases hd : a.disputedMetadataOnly
  · simp [hd]
  · by_cases hr : 0 < refunded ∨ anyRefund
    · simp [hd, hr]
    · rw [if_neg hd, if_neg hr]
      split_ifs <;> simp [hr]

theorem lifecycleState_amounts {anyRefund : Bool} :
    (lifecycleState a funded released refunded anyRefund tipHeight = .funded → 0 < funded) ∧
      (lifecycleState a funded released refunded anyRefund tipHeight = .partiallyReleased → 0 < released) ∧
      (lifecycleState a funded released refunded anyRefund tipHeight = .released → a.totalAmount ≤ released) := by
  unfold lifecycleState
  split_ifs <;> simp_all

end

section

variable {C : Crypto} {a : AgreementObject} {hash : String} {chain : List Block}
  {tipHeight : Nat} {outs : List TxOutput} {counts : AgreementAnchorRole → Bool}

theorem linkedAmount_le (counts : AgreementAnchorRole → Bool) :
    (linkedAmount counts (scanAgreementLinkedTxs C a hash chain)).toNat ≤
      ((located chain).map fun entry => announced a hash counts entry.2).sum := by
  rw [linkedAmount_scan]
  exact Nat.mod_le _ _

theorem funded_le (h : ∀ entry ∈ located chain, Honest C outs chain a hash entry.2) :
    (linkedAmount AgreementAnchorRole.funds (scanAgreementLinkedTxs C a hash chain)).toNat ≤ totalCreated outs chain :=
  (linkedAmount_le _).trans (List.sum_le_sum fun entry hmem => (h entry hmem).funds)

theorem paid_le (h : ∀ entry ∈ located chain, Honest C outs chain a hash entry.2) :
    (linkedAmount AgreementAnchorRole.releases (scanAgreementLinkedTxs C a hash chain)).toNat +
      (linkedAmount AgreementAnchorRole.refunds (scanAgreementLinkedTxs C a hash chain)).toNat ≤
        totalSpent C outs chain := by
  have hsum := List.sum_le_sum fun entry hmem => (h entry hmem).pays
  rw [List.sum_map_add] at hsum
  exact (Nat.add_le_add (linkedAmount_le _) (linkedAmount_le _)).trans hsum

theorem totalSpent_pos {entry : Nat × Transaction} (hmem : entry ∈ located chain)
    (h : 0 < spentValue C outs chain entry.2) : 0 < totalSpent C outs chain :=
  h.trans_le (List.single_le_sum (by simp) _ (List.mem_map_of_mem hmem))

theorem honest_backed (h : ∀ entry ∈ located chain, Honest C outs chain a hash entry.2) :
    MoneyBacked C outs chain a (deriveLifecycle a hash (scanAgreementLinkedTxs C a hash chain) tipHeight) := by
  have hfunded := funded_le h
  have hpaid := paid_le h
  refine ⟨hfunded, hpaid, fun hstate => ?_, fun hstate => ?_, fun hstate => ?_, fun hstate => ?_⟩
  · have hpos := UInt64.lt_iff_toNat_lt.mp (lifecycleState_amounts.1 hstate)
    rw [UInt64.toNat_zero] at hpos
    exact hpos.trans_le hfunded
  · have hpos := UInt64.lt_iff_toNat_lt.mp (lifecycleState_amounts.2.1 hstate)
    rw [UInt64.toNat_zero] at hpos
    omega
  · have htotal := UInt64.le_iff_toNat_le.mp (lifecycleState_amounts.2.2 hstate)
    omega
  · obtain ⟨-, hpos | hany⟩ := lifecycleState_refunded_iff.mp hstate
    · have hpos := UInt64.lt_iff_toNat_lt.mp hpos
      rw [UInt64.toNat_zero] at hpos
      omega
    · rw [anyRefund_scan] at hany
      obtain ⟨entry, hmem, hrefund⟩ := List.any_eq_true.mp hany
      exact totalSpent_pos hmem ((h entry hmem).refunds hrefund)

end

section

variable {C : Crypto} {a : AgreementObject} {hash : String} {chain chain' : List Block} {tx : Transaction}
  {tipHeight height : Nat}

theorem linkedAmount_adds (hadds : Adds height tx chain chain') (counts : AgreementAnchorRole → Bool) :
    linkedAmount counts (scanAgreementLinkedTxs C a hash chain') =
        linkedAmount counts (scanAgreementLinkedTxs C a hash chain) ↔ announced a hash counts tx % 2 ^ 64 = 0 := by
  have hsum : ((located chain').map fun entry => announced a hash counts entry.2).sum =
      announced a hash counts tx + ((located chain).map fun entry => announced a hash counts entry.2).sum :=
    (hadds.map _).sum_eq
  rw [← UInt64.toNat_inj, linkedAmount_scan, linkedAmount_scan, hsum]
  omega

theorem anyRefund_adds (hadds : Adds height tx chain chain') :
    ((located chain').any fun entry => announcesRefund hash entry.2) =
      (announcesRefund hash tx || (located chain).any fun entry => announcesRefund hash entry.2) :=
  hadds.any_eq

theorem lifecycleState_adds {first before : Bool}
    (hbefore : 0 < refunded → before) :
    lifecycleState a funded released refunded (first || before) tipHeight =
        lifecycleState a funded released refunded before tipHeight ↔
      (first → a.disputedMetadataOnly ∨ before) := by
  cases first with
  | false => simp
  | true =>
    rw [Bool.true_or]
    by_cases hd : a.disputedMetadataOnly
    · simp [lifecycleState, hd]
    · have hd : a.disputedMetadataOnly = false := by simpa using hd
      rw [lifecycleState_refunded_iff.mpr ⟨hd, .inr rfl⟩, eq_comm, lifecycleState_refunded_iff, hd]
      simpa using hbefore

theorem reported_adds (hadds : Adds height tx chain chain') :
    reported C chain' a hash tipHeight = reported C chain a hash tipHeight ↔ Silent chain a hash tx := by
  have hfunds := @linkedAmount_adds C a hash _ _ _ _ hadds AgreementAnchorRole.funds
  have hreleases := @linkedAmount_adds C a hash _ _ _ _ hadds AgreementAnchorRole.releases
  have hrefunds := @linkedAmount_adds C a hash _ _ _ _ hadds AgreementAnchorRole.refunds
  simp only [reported, deriveLifecycle, anyRefund_scan, anyRefund_adds hadds, Prod.mk.injEq]
  constructor
  · rintro ⟨hstate, hf, hr, hb⟩
    rw [hf, hr, hb, lifecycleState_adds refundedAmount_pos, List.any_eq_true] at hstate
    exact ⟨hfunds.mp hf, hreleases.mp hr, hrefunds.mp hb, hstate⟩
  · intro hsilent
    rw [hfunds.mpr hsilent.funds, hreleases.mpr hsilent.releases, hrefunds.mpr hsilent.refunds,
      lifecycleState_adds refundedAmount_pos, List.any_eq_true]
    exact ⟨hsilent.refund, rfl, rfl, rfl⟩

end

/-- The report on an agreement is backed by its HTLC outputs where every transaction moves what its anchors say; and a
transaction that has nothing to do with these outputs leaves the report alone exactly when its anchors are silent. -/
theorem lifecycle_backed_and_framed (C : Crypto) (a : AgreementObject) (hash : String) (payerPkh payeePkh : Pkh)
    (chain : List Block) (tipHeight : Nat) :
    ((∀ entry ∈ located chain, Honest C (htlcOutputs a payerPkh payeePkh) chain a hash entry.2) →
      MoneyBacked C (htlcOutputs a payerPkh payeePkh) chain a
        (deriveLifecycle a hash (scanAgreementLinkedTxs C a hash chain) tipHeight)) ∧
      ∀ height tx chain', Adds height tx chain chain' → Foreign C (htlcOutputs a payerPkh payeePkh) chain tx →
        (reported C chain' a hash tipHeight = reported C chain a hash tipHeight ↔ Silent chain a hash tx) :=
  ⟨honest_backed, fun _ _ _ hadds _ => reported_adds hadds⟩

section

/-- A transaction of anybody, with one output that carries such an anchor of the sale. -/
def notice (role : AgreementAnchorRole) : Transaction where
  version := 1
  inputs := []
  outputs := [⟨0, anchorScript ⟨encodeHex saleHash.bytes, role, none⟩⟩]
  locktime := 0

/-- The buyer locks the first milestone, with the anchor that the wallet adds. -/
def saleFunding : Transaction where
  version := 1
  inputs := []
  outputs := [⟨60000, encodeHtlcv1Script ⟨ByteVec.zero 32, ByteVec.zero 20, keyOnePkh, 100⟩⟩,
    ⟨0, anchorScript ⟨encodeHex saleHash.bytes, .funding, some "m1"⟩⟩]
  locktime := 0

def saleChain (txs : List Transaction) : List Block :=
  [lockedGenesis, devnetBlock (ByteVec.zero 32) (ByteVec.zero 32) 0 0 txs]

def saleOutputs : List TxOutput := htlcOutputs saleAgreement keyOnePkh (ByteVec.zero 20)

theorem saleFunding_honest : ∀ entry ∈ located (saleChain [saleFunding]),
    Honest saleCrypto saleOutputs (saleChain [saleFunding]) saleAgreement (encodeHex saleHash.bytes) entry.2 := by
  have hall : ∀ entry ∈ located (saleChain [saleFunding]),
      announced saleAgreement (encodeHex saleHash.bytes) AgreementAnchorRole.funds entry.2 ≤
          createdValue saleOutputs entry.2 ∧
        announced saleAgreement (encodeHex saleHash.bytes) AgreementAnchorRole.releases entry.2 = 0 ∧
        announcesRefund (encodeHex saleHash.bytes) entry.2 = false := by decide +kernel
  intro entry hmem
  obtain ⟨hfunds, hreleases, hrefunds⟩ := hall entry hmem
  refine ⟨hfunds, ?_, fun h => absurd h (by simp [hrefunds])⟩
  rw [hreleases, announced_refunds hrefunds]
  exact Nat.zero_le _

theorem saleFunding_backed : MoneyBacked saleCrypto saleOutputs (saleChain [saleFunding]) saleAgreement
    (deriveLifecycle saleAgreement (encodeHex saleHash.bytes)
      (scanAgreementLinkedTxs saleCrypto saleAgreement (encodeHex saleHash.bytes) (saleChain [saleFunding])) 1) :=
  (lifecycle_backed_and_framed saleCrypto saleAgreement (encodeHex saleHash.bytes) keyOnePkh (ByteVec.zero 20)
    (saleChain [saleFunding]) 1).1 saleFunding_honest

theorem notice_foreign : Foreign saleCrypto saleOutputs (saleChain []) (notice .refund) :=
  ⟨by decide, fun _ hmem => absurd hmem (by simp [notice])⟩

theorem stray_anchor_reports_refund :
    computeAgreementHashHex saleCrypto saleAgreement = .ok (encodeHex saleHash.bytes) ∧
      Adds 1 (notice .refund) (saleChain []) (saleChain [notice .refund]) ∧
      Foreign saleCrypto saleOutputs (saleChain []) (notice .refund) ∧
      reported saleCrypto (saleChain []) saleAgreement (encodeHex saleHash.bytes) 1 = (.proposed, 0, 0, 0) ∧
      reported saleCrypto (saleChain [notice .refund]) saleAgreement (encodeHex saleHash.bytes) 1 =
        (.refunded, 0, 0, 100000) := by
  refine ⟨?_, (List.perm_append_comm : ([(0, _)] ++ [(1, notice .refund)] : List (Nat × Transaction)).Perm _),
    notice_foreign, by decide, by decide +kernel⟩
  rw [computeAgreementHashHex, saleAgreement_valid, ← saleAgreement_hash]
  rfl

end

end IriumConsensus
