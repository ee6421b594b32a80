import Mathlib.Algebra.BigOperators.Group.List.Basic
import IriumConsensus.Poawx.Payout
import IriumConsensus.ScriptCodec

namespace IriumConsensus

open ByteCodec Checks

variable {payouts : List (Pkh × Nat)} {outputs : List TxOutput} {primaryPkh feePkh : Pkh} {totalReward : Nat}
  {role : Option (PerRole Pkh)} {fee : Option (UInt16 × Pkh)} {feeBps : UInt16}

def payoutOutputs (payouts : List (Pkh × Nat)) : List TxOutput :=
  payouts.map fun p => ⟨UInt64.ofNat p.2, p2pkhScript p.1⟩

theorem collectPayouts_payoutOutputs (h : ∀ p ∈ payouts, p.2 < 2 ^ 64) :
    collectPayouts (payoutOutputs payouts) = .ok payouts := by
  induction payouts with
  | nil => rfl
  | cons p payouts ih =>
    rw [List.forall_mem_cons] at h
    have hv : (UInt64.ofNat p.2).toNat = p.2 := by
      rw [UInt64.toNat_ofNat']
      omega
    rw [payoutOutputs, List.map_cons, collectPayouts]
    simp only [parseP2pkhScript_p2pkhScript, bind_eq_ok, pure_eq_ok]
    exact ⟨payouts, ih h.2, by rw [hv]⟩

theorem collectPayouts_sum
    (h : collectPayouts outputs = .ok payouts) :
    (outputs.map fun out => out.value.toNat).sum = (payouts.map Prod.snd).sum := by
  induction outputs generalizing payouts with
  | nil =>
    obtain rfl := Except.ok.inj h
    rfl
  | cons out rest ih =>
    rw [collectPayouts] at h
    split at h
    next pkh hp =>
      simp only [bind_eq_ok, pure_eq_ok] at h
      obtain ⟨ps, hps, rfl⟩ := h
      rw [List.map_cons, List.sum_cons, ih hps, List.map_cons, List.sum_cons]
    next hp =>
      simp only [bind_eq_ok, exists_unit, failIf_eq_ok, not_not] at h
      rw [List.map_cons, List.sum_cons, h.1, ih h.2]
      simp

theorem checkPayouts_ok {expected : List (Pkh × Nat)} (hlen : payouts.length = expected.length) :
    checkEach (fun i p => checkPayout i p.1 p.2) (payouts.zip expected) = .ok () ↔ payouts = expected := by
  constructor
  · intro h
    refine List.ext_getElem hlen fun i h1 h2 => ?_
    have hz : (payouts.zip expected)[i]? = some (payouts[i], expected[i]) := by
      rw [List.getElem?_zip_eq_some]
      exact ⟨List.getElem?_eq_getElem h1, List.getElem?_eq_getElem h2⟩
    have hc := checkEach_ok h hz
    simp only [checkPayout, bind_eq_ok, exists_unit, failIf_eq_ok, not_not] at hc
    exact Prod.ext hc.1 hc.2
  · rintro rfl
    rw [checkEach, checkAll_eq_ok]
    rintro ⟨⟨a, b⟩, i⟩ hmem
    have hz := List.mem_zipIdx_iff_getElem?.mp hmem
    rw [List.getElem?_zip_eq_some] at hz
    obtain rfl : a = b := Option.some.inj (hz.1.symm.trans hz.2)
    simp [checkPayout]

theorem validatePoawxCoinbasePayout_eq_ok :
    validatePoawxCoinbasePayout outputs primaryPkh totalReward role fee = .ok () ↔
      collectPayouts outputs = .ok (canonicalPayouts primaryPkh totalReward role fee) ∧
        ((canonicalPayouts primaryPkh totalReward role fee).map Prod.snd).sum = totalReward := by
  simp only [validatePoawxCoinbasePayout, bind_eq_ok, exists_unit, failIf_eq_ok, not_not]
  constructor
  · rintro ⟨payouts, hp, hlen, hcheck, hsum⟩
    obtain rfl := (checkPayouts_ok hlen).mp hcheck
    exact ⟨hp, hsum⟩
  · rintro ⟨hp, hsum⟩
    exact ⟨_, hp, rfl, (checkPayouts_ok rfl).mpr rfl, hsum⟩

/-- The payouts that the extension of a receipt calls for. -/
def expectedPayouts (primaryPkh : Pkh) (totalReward : Nat) (role : PerRole Pkh) (feeBps : UInt16) (feePkh : Pkh) :
    List (Pkh × Nat) :=
  let amounts := multiRoleAmounts totalReward
  let roleOuts := (role.zip amounts.2).toList
  if feeBps = 0 then (primaryPkh, amounts.1) :: roleOuts
  else
    (primaryPkh, (applyFee amounts.1 feeBps).1) :: roleOuts ++ [(feePkh, (applyFee amounts.1 feeBps).2)]

theorem canonicalPayouts_feeTerms (primaryPkh : Pkh) (totalReward : Nat) (role : PerRole Pkh) (feeBps : UInt16)
    (feePkh : Pkh) : canonicalPayouts primaryPkh totalReward (some role) (feeTerms feeBps feePkh) =
      expectedPayouts primaryPkh totalReward role feeBps feePkh := by
  by_cases h0 : feeBps = 0
  · simp [canonicalPayouts, payoutShares, feeTerms, expectedPayouts, h0]
  · simp [canonicalPayouts, payoutShares, feeTerms, expectedPayouts, h0, UInt16.pos_iff_ne_zero.mpr h0]

theorem validatePoawxCoinbasePayout_iff {role : PerRole Pkh} :
    validatePoawxCoinbasePayout outputs primaryPkh totalReward (some role) (feeTerms feeBps feePkh) = .ok () ↔
      collectPayouts outputs = .ok (expectedPayouts primaryPkh totalReward role feeBps feePkh) ∧
        ((expectedPayouts primaryPkh totalReward role feeBps feePkh).map Prod.snd).sum = totalReward := by
  rw [validatePoawxCoinbasePayout_eq_ok, canonicalPayouts_feeTerms]

theorem multiRoleAmounts_sum (total : Nat) :
    (multiRoleAmounts total).1 + (multiRoleAmounts total).2.compute + (multiRoleAmounts total).2.verify +
      (multiRoleAmounts total).2.support = total := by
  simp only [multiRoleAmounts]
  omega

theorem applyFee_sum (gross : Nat) (h : feeBps.toNat ≤ 10000) :
    (applyFee gross feeBps).1 + (applyFee gross feeBps).2 = gross := by
  have hle : gross * feeBps.toNat / 10000 ≤ gross :=
    Nat.div_le_of_le_mul (by rw [Nat.mul_comm]; exact Nat.mul_le_mul_right _ h)
  simp only [applyFee]
  omega

def paidKeys (outputs : List TxOutput) : List (Pkh × Nat) :=
  outputs.filterMap fun out => (parseP2pkhScript out.scriptPubkey).map fun pkh => (pkh, out.value.toNat)

theorem collectPayouts_eq_ok :
    collectPayouts outputs = .ok payouts ↔
      (∀ out ∈ outputs, parseP2pkhScript out.scriptPubkey = none → out.value = 0) ∧ paidKeys outputs = payouts := by
  induction outputs generalizing payouts with
  | nil => simp [collectPayouts, paidKeys]
  | cons out rest ih =>
    rw [collectPayouts, List.forall_mem_cons, paidKeys]
    cases hp : parseP2pkhScript out.scriptPubkey with
    | some pkh =>
      rw [List.filterMap_cons_some (by rw [hp]; rfl)]
      simp only [bind_eq_ok, ih, pure_eq_ok, reduceCtorEq, false_implies, true_and]
      constructor
      · rintro ⟨_, ⟨hzero, rfl⟩, heq⟩
        exact ⟨hzero, heq⟩
      · rintro ⟨hzero, heq⟩
        exact ⟨_, ⟨hzero, rfl⟩, heq⟩
    | none =>
      rw [List.filterMap_cons_none (by rw [hp]; rfl)]
      simp only [bind_eq_ok, exists_unit, failIf_eq_ok, not_not, ih, true_implies, and_assoc]
      rfl

def roleAmounts (totalReward : Nat) : Option (PerRole Pkh) → List (Pkh × Nat)
  | some role => [(role.compute, totalReward * 2200 / 10000), (role.verify, totalReward * 1300 / 10000),
      (role.support, totalReward * 1000 / 10000)]
  | none => []

def primaryShare (totalReward : Nat) (role : Option (PerRole Pkh)) : Nat :=
  totalReward - ((roleAmounts totalReward role).map Prod.snd).sum

def feeAmounts (totalReward : Nat) (role : Option (PerRole Pkh)) : Option (UInt16 × Pkh) → List (Pkh × Nat)
  | some (bps, feePkh) => if 0 < bps then [(feePkh, primaryShare totalReward role * bps.toNat / 10000)] else []
  | none => []

def primaryNet (totalReward : Nat) (role : Option (PerRole Pkh)) (fee : Option (UInt16 × Pkh)) : Nat :=
  primaryShare totalReward role - ((feeAmounts totalReward role fee).map Prod.snd).sum

theorem payoutShares_eq (totalReward : Nat) (role : Option (PerRole Pkh)) :
    payoutShares totalReward role = (primaryShare totalReward role, roleAmounts totalReward role) := by
  cases role with
  | none => rfl
  | some role =>
    simp only [payoutShares, primaryShare, roleAmounts, multiRoleAmounts, PerRole.zip, PerRole.toList, List.map_cons,
      List.map_nil, List.sum_cons, List.sum_nil, Prod.mk.injEq, and_true]
    omega

theorem canonicalPayouts_eq (primaryPkh : Pkh) (totalReward : Nat) (role : Option (PerRole Pkh))
    (fee : Option (UInt16 × Pkh)) :
    canonicalPayouts primaryPkh totalReward role fee =
      (primaryPkh, primaryNet totalReward role fee) :: roleAmounts totalReward role ++
        feeAmounts totalReward role fee := by
  unfold canonicalPayouts primaryNet feeAmounts
  rw [payoutShares_eq]
  cases fee with
  | none => simp
  | some fee =>
    by_cases hpos : 0 < fee.1
    · simp [hpos, applyFee]
    · simp [hpos]

theorem roleAmounts_le (totalReward : Nat) (role : Option (PerRole Pkh)) :
    ((roleAmounts totalReward role).map Prod.snd).sum ≤ totalReward := by
  cases role with
  | none => exact Nat.zero_le _
  | some role =>
    simp only [roleAmounts, List.map_cons, List.map_nil, List.sum_cons, List.sum_nil]
    omega

theorem feeAmounts_le
    (hfee : ∀ bps feePkh, fee = some (bps, feePkh) → bps.toNat ≤ 10000) :
    ((feeAmounts totalReward role fee).map Prod.snd).sum ≤ primaryShare totalReward role := by
  unfold feeAmounts
  split
  next bps feePkh =>
    split
    next =>
      rw [List.map_singleton, List.sum_singleton]
      exact Nat.div_le_of_le_mul (by rw [Nat.mul_comm]; exact Nat.mul_le_mul_right _ (hfee _ _ rfl))
    next => exact Nat.zero_le _
  next => exact Nat.zero_le _

theorem canonicalPayouts_sum (hfee : ∀ bps feePkh, fee = some (bps, feePkh) → bps.toNat ≤ 10000) :
    ((canonicalPayouts primaryPkh totalReward role fee).map Prod.snd).sum = totalReward := by
  have hroles := roleAmounts_le totalReward role
  have hfees := @feeAmounts_le totalReward role fee hfee
  rw [canonicalPayouts_eq, List.cons_append, List.map_cons, List.sum_cons, List.map_append, List.sum_append]
  unfold primaryNet
  unfold primaryShare at hfees ⊢
  omega

theorem expectedPayouts_sum {role : PerRole Pkh} (h : feeBps.toNat ≤ 10000) :
    ((expectedPayouts primaryPkh totalReward role feeBps feePkh).map Prod.snd).sum = totalReward := by
  rw [← canonicalPayouts_feeTerms]
  refine canonicalPayouts_sum fun bps pkh hfee => ?_
  unfold feeTerms at hfee
  split at hfee
  next => simp only [Option.some.injEq, Prod.mk.injEq] at hfee; exact hfee.1 ▸ h
  next => simp at hfee

/-- The validator accepts the canonical coinbase and no other. -/
theorem coinbase_payout_exact {outputs : List TxOutput} {primaryPkh : Pkh} {totalReward : Nat}
    {role : Option (PerRole Pkh)} {fee : Option (UInt16 × Pkh)}
    (hfee : ∀ bps feePkh, fee = some (bps, feePkh) → bps.toNat ≤ 10000) :
    (validatePoawxCoinbasePayout outputs primaryPkh totalReward role fee = .ok () ↔
      (∀ out ∈ outputs, parseP2pkhScript out.scriptPubkey = none → out.value = 0) ∧
        paidKeys outputs = (primaryPkh, primaryNet totalReward role fee) :: roleAmounts totalReward role ++
          feeAmounts totalReward role fee) ∧
    (validatePoawxCoinbasePayout outputs primaryPkh totalReward role fee = .ok () →
      (outputs.map fun out => out.value.toNat).sum = totalReward) ∧
    ∀ p ∈ feeAmounts totalReward role fee, ∃ bps, fee = some (bps, p.1) ∧
      p.2 * 10000 ≤ bps.toNat * primaryShare totalReward role := by
  have hiff := @validatePoawxCoinbasePayout_eq_ok outputs primaryPkh totalReward role fee
  have hsum := @canonicalPayouts_sum primaryPkh totalReward role fee hfee
  refine ⟨?_, fun h => ?_, ?_⟩
  · rw [hiff, ← canonicalPayouts_eq, ← collectPayouts_eq_ok]
    exact and_iff_left hsum
  · rw [collectPayouts_sum (hiff.mp h).1, hsum]
  · unfold feeAmounts
    split
    next bps feePkh =>
      split
      next =>
        rintro p hp
        obtain rfl := List.mem_singleton.mp hp
        refine ⟨bps, rfl, ?_⟩
        rw [Nat.mul_comm bps.toNat]
        exact Nat.div_mul_le_self _ _
      next => simp
    next => simp

theorem coinbase_payout_exact_solo :
    validatePoawxCoinbasePayout (payoutOutputs [(ByteVec.zero 20, 98), (ByteVec.zero 20, 2)]) (ByteVec.zero 20) 100 none
      (some (200, ByteVec.zero 20)) = .ok () := by
  refine (coinbase_payout_exact ?_).1.mpr ⟨by decide, by decide⟩
  rintro bps feePkh ⟨⟩
  decide

end IriumConsensus
