import Mathlib.Algebra.BigOperators.Intervals
import Mathlib.Algebra.Order.BigOperators.Group.Finset
import Mathlib.Algebra.Order.BigOperators.Group.List
import IriumConsensus.ApplyRules
import IriumConsensus.MainnetHalt
import IriumConsensus.Poawx.PayoutRule

namespace IriumConsensus

open ByteCodec Checks Stateful

variable {C : Crypto} {E : NodeEnv} {P : ChainParams} {L : Ledger} {height issued : Nat}

variable {payouts : List (Pkh × Nat)}

/-- There is a coinbase for a block without other transactions that both the payout rule, where it is active,
and the supply limit let through. -/
def Payable (C : Crypto) (E : NodeEnv) (P : ChainParams) (L : Ledger) (height issued : Nat) : Prop :=
  ∃ (b : Block) (coinbase : Transaction), b.transactions = [coinbase] ∧
    (phase20ProductionActive E height → ∃ primaryPkh role feeBps feePkh,
      validatePoawxCoinbasePayout coinbase.outputs primaryPkh (blockReward E height) (some role)
        (feeTerms feeBps feePkh) = .ok ()) ∧
    ∃ undo L', validateAndApplyTransactions C E P height b (blockReward E height) true
      (some (maxMoney - issued)) L = (.ok undo, L')

theorem isLegacyCarrier_p2pkh (height : Nat) (value : UInt64) (pkh : Pkh) :
    isLegacyCarrier height ⟨value, p2pkhScript pkh⟩ = false := by
  simp [isLegacyCarrier, TxOutput.tag, p2pkhScript, dogeCarrierTag]

theorem validateOutput_p2pkh {value : UInt64} (hv : value.toNat ≤ maxMoney) (pkh : Pkh) :
    validateOutput C P ⟨value, p2pkhScript pkh⟩ height = .ok () := by
  have hlen : (p2pkhScript pkh).length = 25 := by simp [p2pkhScript, pkh.length_eq]
  have htag : TxOutput.tag ⟨value, p2pkhScript pkh⟩ = some 0x76 := rfl
  have hm : ¬ maxMoney < value.toNat := not_lt.mpr hv
  simp [validateOutput, checkTaggedOutput, htag, hlen, hm, failIf, mpsoV1Tag, btcHeaderBatchTag, ltcHeaderBatchTag,
    htlcV1ScriptTag, htlcBtcSwapV1Tag, htlcLtcSwapV1Tag, swapOrderV1Tag, ltcSwapOrderV1Tag]

theorem countedValue_of_collectPayouts (height : Nat) {outputs : List TxOutput}
    (h : collectPayouts outputs = .ok payouts) : countedValue height outputs = (payouts.map Prod.snd).sum := by
  rw [← collectPayouts_sum h]
  induction outputs generalizing payouts with
  | nil => rfl
  | cons out rest ih =>
    rw [collectPayouts] at h
    split at h
    next pkh hp =>
      simp only [bind_eq_ok, pure_eq_ok] at h
      obtain ⟨ps, hps, -⟩ := h
      obtain ⟨value, script⟩ := out
      obtain rfl : p2pkhScript pkh = script := p2pkhScript_of_parse hp
      have hb : TxOutput.batchChain ⟨value, p2pkhScript pkh⟩ = none := rfl
      have hrest := ih hps
      simp only [countedValue, List.filter_cons, hb, isLegacyCarrier_p2pkh, Option.isNone_none, Bool.not_false,
        Bool.and_self, ↓reduceIte, List.map_cons, List.sum_cons] at hrest ⊢
      rw [hrest]
    next hp =>
      simp only [bind_eq_ok, exists_unit, failIf_eq_ok, not_not] at h
      have hrest := ih h.2
      rw [List.map_cons, List.sum_cons, h.1, ← hrest]
      simp only [countedValue, List.filter_cons]
      split <;> simp [h.1]

theorem payoutOutputs_plain (h : ∀ p ∈ payouts, p.2 ≤ maxMoney) :
    ∀ out ∈ payoutOutputs payouts, out.batchChain = none ∧
      (isLegacyCarrier height out = false → validateOutput C P out height = .ok ()) := by
  intro out hout
  obtain ⟨p, hp, rfl⟩ := List.mem_map.mp hout
  refine ⟨rfl, fun _ => validateOutput_p2pkh ?_ p.1⟩
  have hmax : maxMoney < 2 ^ 64 := by decide
  have hle := h p hp
  rw [UInt64.toNat_ofNat', Nat.mod_eq_of_lt (by omega)]
  exact hle

theorem countedValue_payoutOutputs (height : Nat) (h : ∀ p ∈ payouts, p.2 ≤ maxMoney) :
    countedValue height (payoutOutputs payouts) = (payouts.map Prod.snd).sum := by
  have hmax : maxMoney < 2 ^ 64 := by decide
  exact countedValue_of_collectPayouts height
    (collectPayouts_payoutOutputs fun p hp => (h p hp).trans_lt hmax)

theorem validateAndApplyTransactions_payouts {b : Block} {reward maxSubsidy : Nat}
    (hb : b.transactions = [coinbaseTx [] (payoutOutputs payouts)]) (hne : payouts ≠ [])
    (hsum : (payouts.map Prod.snd).sum ≤ reward) (hreward : reward ≤ maxMoney)
    (hmax : (payouts.map Prod.snd).sum ≤ maxSubsidy) :
    ∃ undo L', validateAndApplyTransactions C E P height b reward true (some maxSubsidy) L = (.ok undo, L') := by
  have hout : ¬ (coinbaseTx [] (payoutOutputs payouts)).outputs = [] := by simpa [coinbaseTx, payoutOutputs] using hne
  have hle : ∀ p ∈ payouts, p.2 ≤ maxMoney := fun p hp =>
    (List.single_le_sum (fun _ _ => Nat.zero_le _) _ (List.mem_map_of_mem hp)).trans (hsum.trans hreward)
  have hcount := countedValue_payoutOutputs height hle
  have hpaid : applyCoinbaseOutputs C P height b.header.time (coinbaseTx [] (payoutOutputs payouts)).outputs []
      ⟨none, none⟩ 0 L = (.ok (⟨none, none⟩, 0 + countedValue height (payoutOutputs payouts)), L) :=
    applyCoinbaseOutputs_plain (payoutOutputs_plain hle) [] ⟨none, none⟩ 0 L (by omega)
  rw [hcount, Nat.zero_add] at hpaid
  have hcoin : isCoinbase (coinbaseTx [] (payoutOutputs payouts)) := by simp [isCoinbase, coinbaseTx]
  rw [validateAndApplyTransactions]
  simp [bind_apply, hb, orFail, failIf, hcoin, hout, applyRegularTransactions, hpaid, subsidyOf, not_lt.mpr hsum,
    not_lt.mpr hmax]

def soloPayouts (reward : Nat) : List (Pkh × Nat) :=
  expectedPayouts (ByteVec.zero 20) reward ⟨ByteVec.zero 20, ByteVec.zero 20, ByteVec.zero 20⟩ 0 (ByteVec.zero 20)

theorem soloPayouts_sum (reward : Nat) : ((soloPayouts reward).map Prod.snd).sum = reward :=
  expectedPayouts_sum (by decide)

theorem soloPayouts_accepted {reward : Nat} (h : reward ≤ maxMoney) :
    validatePoawxCoinbasePayout (payoutOutputs (soloPayouts reward)) (ByteVec.zero 20) reward
      (some ⟨ByteVec.zero 20, ByteVec.zero 20, ByteVec.zero 20⟩) (feeTerms 0 (ByteVec.zero 20)) = .ok () := by
  refine validatePoawxCoinbasePayout_iff.mpr ⟨collectPayouts_payoutOutputs fun p hp => ?_, soloPayouts_sum reward⟩
  have hle : p.2 ≤ ((soloPayouts reward).map Prod.snd).sum :=
    List.single_le_sum (fun _ _ => Nat.zero_le _) _ (List.mem_map_of_mem hp)
  have hmax : maxMoney < 2 ^ 64 := by decide
  rw [soloPayouts_sum] at hle
  omega

theorem payable_iff :
    Payable C E P L height issued ↔
      (phase20ProductionActive E height → blockReward E height ≤ maxMoney - issued) := by
  have hreward : blockReward E height ≤ maxMoney := (blockReward_le E height).trans (by decide)
  constructor
  · rintro ⟨b, coinbase, hb, hpay, undo, L', happ⟩ hactive
    obtain ⟨primaryPkh, role, feeBps, feePkh, hok⟩ := hpay hactive
    obtain ⟨hcollect, hsum⟩ := validatePoawxCoinbasePayout_iff.mp hok
    have hcounted := countedValue_of_collectPayouts height hcollect
    rw [hsum] at hcounted
    have happlied := (validateAndApplyTransactions_triple b _ _ _).ok rfl happ
    cases happlied with
    | @mk coinbase' txs acc entries updates Lr htxs hcoin hacc hmoved hchk hbound hrew hsub =>
      obtain ⟨rfl, rfl⟩ := List.cons.inj (hb.symm.trans htxs)
      cases hacc with
      | nil acc =>
        have hle := hsub _ rfl
        rw [hcounted] at hle
        simpa [subsidyOf] using hle
  · intro h
    -- without the rule a coinbase may take less, even nothing
    by_cases hactive : phase20ProductionActive E height
    · have hsum := soloPayouts_sum (blockReward E height)
      refine ⟨⟨lockedGenesis.header, [coinbaseTx [] (payoutOutputs (soloPayouts (blockReward E height)))], none, none⟩,
        _, rfl, fun _ => ⟨_, _, _, _, soloPayouts_accepted hreward⟩, ?_⟩
      exact validateAndApplyTransactions_payouts rfl (by simp [soloPayouts, expectedPayouts]) hsum.le hreward
        (hsum.le.trans (h hactive))
    · refine ⟨⟨lockedGenesis.header, [coinbaseTx [] (payoutOutputs [(ByteVec.zero 20, 0)])], none, none⟩, _, rfl,
        fun ha => absurd ha hactive, ?_⟩
      exact validateAndApplyTransactions_payouts rfl (by simp) (Nat.zero_le _) hreward (Nat.zero_le _)

def genesisIssued : Nat := 350000000000000

def issuedBefore (E : NodeEnv) (height : Nat) : Nat :=
  genesisIssued + ∑ i ∈ Finset.range height, blockReward E i

section

variable (hm : networkKind E = .mainnet)

include hm

theorem blockReward_mainnet {h k : Nat} (hk : k < 64) (hlo : k = 0 ∧ 0 < h ∨ 24250 + k * 1050000 < h)
    (hhi : h ≤ 24250 + (k + 1) * 1050000) : blockReward E h = initialSubsidy >>> k := by
  have hcount : halvingCount E h = k := by
    have hfork : resolvedBlockTimeV2ForkHeight E = some 24250 := by simp [resolvedBlockTimeV2ForkHeight, hm]
    unfold halvingCount
    rw [if_neg (by omega), hfork]
    have hpre : (if (24250 : Nat) = 0 then 0 else (24250 - 1) / halvingIntervalV1) = 0 := rfl
    dsimp only
    rw [hpre]
    dsimp only [halvingIntervalV1, halvingIntervalV2]
    split <;> omega
  unfold blockReward
  rw [if_neg (by omega), hcount, if_neg (by omega)]

theorem sum_blockReward_mainnet {a b k : Nat} (hk : k < 64) (hab : a ≤ b)
    (hlo : k = 0 ∧ 0 < a ∨ 24250 + k * 1050000 < a) (hhi : b ≤ 24250 + (k + 1) * 1050000 + 1) :
    ∑ i ∈ Finset.range b, blockReward E i =
      ∑ i ∈ Finset.range a, blockReward E i + (b - a) * initialSubsidy >>> k := by
  rw [← Finset.sum_range_add_sum_Ico _ hab]
  congr 1
  rw [Finset.sum_congr rfl fun i hi => blockReward_mainnet hm hk (h := i) ?_ ?_]
  · simp
  · have := Finset.mem_Ico.mp hi
    omega
  · have := Finset.mem_Ico.mp hi
    omega

theorem sum_blockReward_mainnet_last : ∑ i ∈ Finset.range 3720251, blockReward E i = 9650000000000000 := by
  rw [sum_blockReward_mainnet hm (a := 3174251) (k := 3) (by decide) (by decide) (by decide) (by decide),
    sum_blockReward_mainnet hm (a := 2124251) (k := 2) (by decide) (by decide) (by decide) (by decide),
    sum_blockReward_mainnet hm (a := 1074251) (k := 1) (by decide) (by decide) (by decide) (by decide),
    sum_blockReward_mainnet hm (a := 1) (k := 0) (by decide) (by decide) (by decide) (by decide)]
  simp [blockReward, initialSubsidy]

/-- On mainnet the rewards reach the limit with block 3720250, while the next block still has to pay one. -/
theorem mainnet_payable_iff {h : Nat} (hi : issuedBefore E h ≤ maxMoney) :
    Payable C E P L h (issuedBefore E h) ↔ h ≤ 3720250 := by
  have hlast := sum_blockReward_mainnet_last hm
  have hmax : maxMoney = 10000000000000000 := rfl
  have hgenesis : genesisIssued = 350000000000000 := rfl
  rw [payable_iff]
  unfold issuedBefore at hi ⊢
  constructor
  · intro hpay
    by_contra hgt
    have hreward : blockReward E 3720251 = 625000000 := blockReward_mainnet hm (k := 3) (by decide) (by decide) (by decide)
    by_cases heq : h = 3720251
    · subst heq
      have hle := hpay (phase20ProductionActive_mainnet hm (by decide))
      omega
    · have hmono : ∑ i ∈ Finset.range 3720252, blockReward E i ≤ ∑ i ∈ Finset.range h, blockReward E i :=
        Finset.sum_le_sum_of_subset (Finset.range_subset_range.mpr (by omega))
      rw [Finset.sum_range_succ] at hmono
      omega
  · intro hle _
    have hmono : ∑ i ∈ Finset.range (h + 1), blockReward E i ≤ ∑ i ∈ Finset.range 3720251, blockReward E i :=
      Finset.sum_le_sum_of_subset (Finset.range_subset_range.mpr (by omega))
    rw [Finset.sum_range_succ] at hmono
    omega

end

theorem mainnet_payable_at_60000 :
    ∃ s, ChainState.new shaCrypto mainnetNode quietAmbient (nodeParams mainnetNode none none lockedGenesis) = some s ∧
      s.issued = genesisIssued ∧
      Payable shaCrypto mainnetNode s.params s.toLedger 60000 (issuedBefore mainnetNode 60000) := by
  obtain ⟨s, hs, hissued⟩ :=
    exists_of_any (ChainState.new shaCrypto mainnetNode quietAmbient (nodeParams mainnetNode none none lockedGenesis))
    (fun s => s.issued = genesisIssued) (by decide +kernel)
  refine ⟨s, hs, hissued, (mainnet_payable_iff rfl ?_).mpr (by decide)⟩
  have hsum := sum_blockReward_mainnet (E := mainnetNode) rfl (a := 1) (b := 60000) (k := 0) (by decide) (by decide)
    (by decide) (by decide)
  have hzero : ∑ i ∈ Finset.range 1, blockReward mainnetNode i = 0 := rfl
  rw [issuedBefore, hsum, hzero]
  decide

theorem mainnet_emission_halts :
    issuedBefore mainnetNode 3720251 = maxMoney ∧ blockReward mainnetNode 3720251 = 625000000 ∧
      ∀ C P L, ¬ Payable C mainnetNode P L 3720251 (issuedBefore mainnetNode 3720251) := by
  have hlast := sum_blockReward_mainnet_last (E := mainnetNode) rfl
  have hissued : issuedBefore mainnetNode 3720251 = maxMoney := by
    rw [issuedBefore, hlast]
    rfl
  have hreward : blockReward mainnetNode 3720251 = 625000000 := by decide
  refine ⟨hissued, hreward, fun C P L hpay => ?_⟩
  have hle := payable_iff.mp hpay (phase20ProductionActive_mainnet rfl (by decide))
  rw [hissued, hreward] at hle
  exact absurd hle (by decide)

end IriumConsensus
