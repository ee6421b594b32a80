import Mathlib.Algebra.Order.BigOperators.Group.List
import Mathlib.Algebra.Order.Ring.Nat
import IriumConsensus.Confirmations
import IriumConsensus.Poawx.PayoutRule

namespace IriumConsensus

open ByteCodec Checks

variable {C : Crypto} {E : NodeEnv} {A : Ambient} {totalReward : Nat}

def countedRewards (E : NodeEnv) (b : Block) (height : Nat) : List (Pkh × RoleRewardKind × Nat) :=
  if antiDominationActive E height then dominanceEventsFromBlock E b height else []

def allocatedTo (pkh : Pkh) (allocations : List (Pkh × Nat)) : Nat :=
  (allocations.map fun a => if a.1 = pkh then a.2 else 0).sum

/-- The role allocations behind the payouts of a coinbase; a fifth payout is the fee that was taken from the first. -/
def grossAllocations : List (Pkh × Nat) → List (Pkh × Nat)
  | [primary, compute, verify, support] => [primary, compute, verify, support]
  | [primary, compute, verify, support, fee] => [(primary.1, primary.2 + fee.2), compute, verify, support]
  | _ => []

def paidAllocations (b : Block) : List (Pkh × Nat) :=
  grossAllocations ((b.transactions.head?.bind fun coinbase => (collectPayouts coinbase.outputs).toOption).getD [])

def creditedAllocations (E : NodeEnv) (b : Block) (height : Nat) : List (Pkh × Nat) :=
  (countedRewards E b height).map fun e => (e.1, e.2.2)

def roleAllocations (primaryPkh : Pkh) (totalReward : Nat) (role : PerRole Pkh) : List (Pkh × Nat) :=
  (primaryPkh, (multiRoleAmounts totalReward).1) :: (role.zip (multiRoleAmounts totalReward).2).toList

def CreditsReward (E : NodeEnv) (b : Block) (height : Nat) : Prop :=
  (∀ pkh, allocatedTo pkh (creditedAllocations E b height) = allocatedTo pkh (paidAllocations b)) ∧
    ((creditedAllocations E b height).map Prod.snd).sum = blockReward E height

theorem grossAllocations_expectedPayouts {primaryPkh : Pkh} {role : PerRole Pkh} {feeBps : UInt16} {feePkh : Pkh}
    (h : feeBps.toNat ≤ 10000) :
    grossAllocations (expectedPayouts primaryPkh totalReward role feeBps feePkh) =
      roleAllocations primaryPkh totalReward role := by
  have hfee := applyFee_sum (multiRoleAmounts totalReward).1 h
  unfold expectedPayouts
  split
  next => rfl
  next =>
    simp only [PerRole.zip, PerRole.toList, List.cons_append, List.nil_append, grossAllocations, hfee]
    rfl

theorem roleAllocations_sum (primaryPkh : Pkh) (totalReward : Nat) (role : PerRole Pkh) :
    ((roleAllocations primaryPkh totalReward role).map Prod.snd).sum = totalReward := by
  have hsum := multiRoleAmounts_sum totalReward
  simp only [roleAllocations, PerRole.zip, PerRole.toList, List.map_cons, List.map_nil, List.sum_cons, List.sum_nil]
  omega

theorem allocatedTo_le_sum (pkh : Pkh) (allocations : List (Pkh × Nat)) :
    allocatedTo pkh allocations ≤ (allocations.map Prod.snd).sum := by
  refine List.sum_le_sum fun a _ => ?_
  split
  next => exact le_rfl
  next => exact Nat.zero_le _

theorem allocatedTo_append (pkh : Pkh) (xs ys : List (Pkh × Nat)) :
    allocatedTo pkh (xs ++ ys) = allocatedTo pkh xs + allocatedTo pkh ys := by
  simp [allocatedTo]

theorem dominanceEventsFromBlock_allocations (b : Block) (height : Nat) :
    (dominanceEventsFromBlock E b height).map (fun e => (e.1, e.2.2)) =
      b.extensions.flatMap fun p => roleAllocations p.1.workerPkh (blockReward E height) p.2.roleReward := by
  unfold dominanceEventsFromBlock
  induction b.extensions with
  | nil => rfl
  | cons p rest ih => simpa [roleAllocations, PerRole.zip, PerRole.toList] using ih

theorem flatMap_const {exts : List (PoawxBlockReceipt × Phase20ReceiptExt)} {allocations : List (Pkh × Nat)}
    (h : ∀ p ∈ exts, roleAllocations p.1.workerPkh totalReward p.2.roleReward = allocations) :
    (∀ pkh, allocatedTo pkh (exts.flatMap fun p => roleAllocations p.1.workerPkh totalReward p.2.roleReward) =
      exts.length * allocatedTo pkh allocations) ∧
    ((exts.flatMap fun p => roleAllocations p.1.workerPkh totalReward p.2.roleReward).map Prod.snd).sum =
      exts.length * (allocations.map Prod.snd).sum := by
  induction exts with
  | nil => exact ⟨fun pkh => by simp [allocatedTo], by simp⟩
  | cons p rest ih =>
    rw [List.forall_mem_cons] at h
    obtain ⟨hto, hsum⟩ := ih h.2
    refine ⟨fun pkh => ?_, ?_⟩
    · rw [List.flatMap_cons, h.1, allocatedTo_append, hto, List.length_cons, Nat.succ_mul, Nat.add_comm]
    · rw [List.flatMap_cons, h.1, List.map_append, List.sum_append, hsum, List.length_cons, Nat.succ_mul, Nat.add_comm]

namespace ChainState

variable {s s' : ChainState} {b : Block} {coinbase : Transaction} {height i : Nat} {parentHash : Hash32}
  {r : PoawxBlockReceipt}

theorem validateBlock_production (h : validateBlock C E A s b = .ok ())
    (hactive : poawxConsensusActive E s.height) (hproduction : phase20ProductionActive E s.height) :
    b.receipts ≠ [] ∧ ∃ coinbase parentHash, b.transactions.head? = some coinbase ∧
      ∀ r ∈ b.receipts, ∃ i, checkProductionReceipt C E coinbase s.height parentHash i r = .ok () := by
  simp only [validateBlock, validatePoawxBlock, validatePoawxBlockReceipts, checkActiveReceipts, bind_eq_ok, exists_unit,
    checkWhen_eq_ok, hactive, hproduction, if_true, true_implies, failIf_eq_ok] at h
  obtain ⟨-, -, ⟨-, hne, -, -, parent, -, -, hblock⟩, -⟩ := h
  simp only [validatePhase20ProductionBlock, bind_eq_ok, exists_unit, orFail_eq_ok] at hblock
  obtain ⟨coinbase, hcoinbase, hall, -⟩ := hblock
  refine ⟨hne, coinbase, parent.header.hashForHeight C E (s.height - 1), hcoinbase, fun r hr => ?_⟩
  obtain ⟨i, hi⟩ := List.mem_iff_getElem?.mp hr
  exact ⟨i, checkEach_ok hall hi⟩

theorem checkProductionReceipt_pays (h : checkProductionReceipt C E coinbase height parentHash i r = .ok ()) :
    ∃ ext, r.phase20Ext = some ext ∧ ext.feeBps.toNat ≤ 10000 ∧
      validatePoawxCoinbasePayout coinbase.outputs r.workerPkh (blockReward E height) (some ext.roleReward)
        (feeTerms ext.feeBps ext.feePkh) = .ok () := by
  simp only [checkProductionReceipt, validatePhase20ProductionPayout, bind_eq_ok, exists_unit, orFail_eq_ok] at h
  obtain ⟨ext, hext, -, -, -, hfee, hpay⟩ := h
  refine ⟨ext, hext, ?_, hpay⟩
  by_cases h0 : ext.feeBps = 0
  · simp [h0]
  · simp only [validateFeeTerms, h0, ↓reduceIte, bind_eq_ok, exists_unit, failIf_eq_ok] at hfee
    have hcap : ext.feeBps.toNat ≤ thirdPartyFeeCapBps.toNat :=
      UInt16.le_iff_toNat_le.mp (UInt16.not_lt.mp hfee.2.1)
    exact hcap.trans (by decide)

theorem checkProductionReceipt_payouts (h : checkProductionReceipt C E coinbase height parentHash i r = .ok ()) :
    ∃ ext payouts, r.phase20Ext = some ext ∧ collectPayouts coinbase.outputs = .ok payouts ∧
      grossAllocations payouts = roleAllocations r.workerPkh (blockReward E height) ext.roleReward := by
  obtain ⟨ext, hext, hbps, hpay⟩ := checkProductionReceipt_pays h
  obtain ⟨hcollect, -⟩ := validatePoawxCoinbasePayout_iff.mp hpay
  exact ⟨ext, _, hext, hcollect, grossAllocations_expectedPayouts hbps⟩

theorem extensions_allocations (h : validateBlock C E A s b = .ok ())
    (hactive : poawxConsensusActive E s.height) (hproduction : phase20ProductionActive E s.height) :
    b.extensions.length = b.receipts.length ∧
      ∀ p ∈ b.extensions,
        roleAllocations p.1.workerPkh (blockReward E s.height) p.2.roleReward = paidAllocations b := by
  obtain ⟨-, coinbase, parentHash, hcoinbase, hall⟩ := validateBlock_production h hactive hproduction
  constructor
  · unfold Block.extensions
    rw [List.length_filterMap_eq_countP, List.countP_eq_length]
    intro r hr
    obtain ⟨i, hi⟩ := hall r hr
    obtain ⟨ext, -, hext, -⟩ := checkProductionReceipt_payouts hi
    simp [hext]
  · intro p hp
    obtain ⟨r, hr, hmap⟩ := List.mem_filterMap.mp hp
    obtain ⟨ext, hext, rfl⟩ := Option.map_eq_some_iff.mp hmap
    obtain ⟨i, hi⟩ := hall r hr
    obtain ⟨ext', payouts, hext', hcollect, hgross⟩ := checkProductionReceipt_payouts hi
    obtain rfl := Option.some.inj (hext.symm.trans hext')
    rw [paidAllocations, hcoinbase, Option.bind_some, hcollect]
    exact hgross.symm

/-- The credit of an accepted block is its reward exactly if it has one receipt or there is no reward to share. -/
theorem credits_reward_iff (hok : connectBlock C E A b s = (.ok (), s'))
    (hactive : poawxConsensusActive E s.height) (hproduction : phase20ProductionActive E s.height)
    (hdomination : antiDominationActive E s.height) :
    CreditsReward E b s.height ↔ b.receipts.length = 1 ∨ blockReward E s.height = 0 := by
  obtain ⟨hv, -⟩ := connectBlock_eq_ok.mp hok
  obtain ⟨hlen, hsame⟩ := extensions_allocations hv hactive hproduction
  obtain ⟨hto, hsum⟩ := flatMap_const hsame
  have hne := (validateBlock_production hv hactive hproduction).1
  have hcredited : creditedAllocations E b s.height =
      b.extensions.flatMap fun p => roleAllocations p.1.workerPkh (blockReward E s.height) p.2.roleReward := by
    rw [creditedAllocations, countedRewards, if_pos hdomination, dominanceEventsFromBlock_allocations]
  have hpaid : ((paidAllocations b).map Prod.snd).sum = blockReward E s.height := by
    cases hx : b.extensions with
    | nil =>
      rw [hx] at hlen
      exact absurd (List.length_eq_zero_iff.mp hlen.symm) hne
    | cons p rest => rw [← hsame p (by simp [hx]), roleAllocations_sum]
  rw [CreditsReward, hcredited, hsum, hpaid, hlen]
  simp only [hto, hlen]
  constructor
  · rintro ⟨-, htotal⟩
    by_cases hzero : blockReward E s.height = 0
    · exact .inr hzero
    · exact .inl (Nat.eq_of_mul_eq_mul_right (Nat.pos_of_ne_zero hzero) (htotal.trans (Nat.one_mul _).symm))
  · rintro (hone | hzero)
    · rw [hone, Nat.one_mul]
      exact ⟨fun pkh => Nat.one_mul _, rfl⟩
    · rw [hzero, Nat.mul_zero]
      refine ⟨fun pkh => ?_, rfl⟩
      have hle := allocatedTo_le_sum pkh (paidAllocations b)
      rw [hpaid, hzero, Nat.le_zero] at hle
      rw [hle, Nat.mul_zero]

/-- A devnet with role rewards and anti-domination from the first block on. -/
def creditNode : NodeEnv :=
  { devnetNode with
    activationHeight := fun v => match v with
      | .poawx | .multiRoleReward | .fairnessMatrix | .antiDomination => some 1
      | _ => none
    poawxModeActive := true }

def creditParams : ChainParams := nodeParams creditNode none none lockedGenesis

def creditClaim (roleId laneId : UInt8) (claimDigest : Nat) : PoawxRoleClaim :=
  { blankRoleClaim with
    roleId, laneId, solverPkh := beVec 20 roleId.toNat, claimDigest := beVec 32 claimDigest }

def sharedExt : Phase20ReceiptExt := { blankExt with roleReward := ⟨beVec 20 1, beVec 20 2, beVec 20 3⟩ }

def creditExt : Phase20ReceiptExt :=
  { sharedExt with
    claims :=
      ⟨creditClaim 1 0 0x43b62f4ab925a4003df916d2eefb32b3ebc3795dbb48f55f03b50fe6188220db,
        creditClaim 2 0 0x12a47c748a666e2517872039d0587f9958d4c4eb7d7f672deb5c5802551c65e9,
        creditClaim 3 2 0xb2f69304c98325cf512bd434d97e8eda2ca4dc38096c94e2ddc98eb92cbac0ab⟩ }

/-- A direct receipt of `keyOne` at the first height. -/
def creditReceipt : PoawxBlockReceipt :=
  { receiptWith creditExt with
    height := 1
    workerPubkey := keyOne
    workerSig := beVec 64 0x5d2669b0ea28bf56c72795829ace1a4014f340c0f56bfaa9ae939739f52d43df449f6cbabb1998912ee2cf3f6bb4ba82c8ad86a4c0effbcc8751657eb7024efc
    solution := beVec 8 1045
    commitmentNonce := beVec 32 0x353cd969c1803e3a70bbe2644252b7dd1406ab4f03b862cfb66ac4b137c2aba7 }

def creditCrypto : Crypto :=
  signedCrypto
    { digest := beVec 32 0xfab8a4d4cdb84411eb1ae20b7616f737e3599ee98a703ec57824c2fd7ef7902f
      signature := creditReceipt.workerSig }

def creditBlock (receipts : List PoawxBlockReceipt) (root merkleRoot : Nat) : Block :=
  { devnetBlock lockedGenesisHash (beVec 32 merkleRoot) 1767583931 3
      [coinbaseTx []
        [⟨2750000000, p2pkhScript keyOnePkh⟩, ⟨1100000000, p2pkhScript (beVec 20 1)⟩,
          ⟨650000000, p2pkhScript (beVec 20 2)⟩, ⟨500000000, p2pkhScript (beVec 20 3)⟩,
          ⟨0, [0x6a, 0x24] ++ asciiBytes "irx1" ++ (beVec 32 root).bytes⟩]] with
    poawxReceipts := some receipts }

def singleReceiptBlock : Block :=
  creditBlock [creditReceipt] 0xbe6bfcead9b7d0dc855e176d7656b354b65151899136379c0ea0c57ce1c1990b
    0xee2111432ff75aad10b6617441c84282bb3cac67b17d4462bfd3d9072c0799a9

def doubleReceiptBlock : Block :=
  creditBlock [creditReceipt, creditReceipt] 0x30f550f9f5ba21b9edf4bd3ad70210bba0bf6b0ab034fca009186a63258fdbf9
    0xc737e5e4236eec6f77e90962e42b98229325df0b042e5e31eaf911442f64af7b

theorem single_receipt_credited :
    ∃ s s', Reachable creditCrypto creditNode s ∧
      connectBlock creditCrypto creditNode quietAmbient singleReceiptBlock s = (.ok (), s') ∧
      CreditsReward creditNode singleReceiptBlock s.height := by
  obtain ⟨s, hs, hok, hactive, hproduction, hdomination⟩ := exists_reachable_of_runOf
    (C := creditCrypto) (E := creditNode) quietAmbient creditParams []
    (fun s => (connectBlock creditCrypto creditNode quietAmbient singleReceiptBlock s).1 = .ok () ∧
      poawxConsensusActive creditNode s.height ∧ phase20ProductionActive creditNode s.height ∧
      antiDominationActive creditNode s.height) (by decide +kernel)
  have hconnect : connectBlock creditCrypto creditNode quietAmbient singleReceiptBlock s = (.ok (), _) :=
    Prod.ext hok rfl
  exact ⟨s, _, hs, hconnect, (credits_reward_iff hconnect hactive hproduction hdomination).mpr (.inl rfl)⟩

/-- The receipt twice is accepted with the same coinbase, and everything is credited twice. -/
theorem receipt_credited_twice :
    ∃ s s', Reachable creditCrypto creditNode s ∧ poawxConsensusActive creditNode s.height ∧
      phase20ProductionActive creditNode s.height ∧ antiDominationActive creditNode s.height ∧
      connectBlock creditCrypto creditNode quietAmbient doubleReceiptBlock s = (.ok (), s') ∧
      allocatedTo (beVec 20 1) (creditedAllocations creditNode doubleReceiptBlock s.height) = 2200000000 ∧
      allocatedTo (beVec 20 1) (paidAllocations doubleReceiptBlock) = 1100000000 ∧
      ((creditedAllocations creditNode doubleReceiptBlock s.height).map Prod.snd).sum =
        2 * blockReward creditNode s.height := by
  obtain ⟨s, hs, hok, hactive, hproduction, hdomination, hcredited, hpaid, hsum⟩ := exists_reachable_of_runOf
    (C := creditCrypto) (E := creditNode) quietAmbient creditParams []
    (fun s => (connectBlock creditCrypto creditNode quietAmbient doubleReceiptBlock s).1 = .ok () ∧
      poawxConsensusActive creditNode s.height ∧ phase20ProductionActive creditNode s.height ∧
      antiDominationActive creditNode s.height ∧
      allocatedTo (beVec 20 1) (creditedAllocations creditNode doubleReceiptBlock s.height) = 2200000000 ∧
      allocatedTo (beVec 20 1) (paidAllocations doubleReceiptBlock) = 1100000000 ∧
      ((creditedAllocations creditNode doubleReceiptBlock s.height).map Prod.snd).sum =
        2 * blockReward creditNode s.height) (by decide +kernel)
  exact ⟨s, _, hs, hactive, hproduction, hdomination, Prod.ext hok rfl, hcredited, hpaid, hsum⟩

end ChainState

end IriumConsensus
