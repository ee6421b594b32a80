import IriumConsensus.Settlement.Milestones

namespace IriumConsensus

open ByteCodec

def ProofPolicy.holdbackAt (policy : ProofPolicy) : Option String → Option PolicyHoldback
  | none => policy.holdback
  | some mid => (policy.milestones.find? fun ms => ms.milestoneId == mid).bind PolicyMilestone.holdback

def ProofPolicy.clauseAt (policy : ProofPolicy) : Option String → Clause
  | none => policy.wholeClause
  | some mid => ⟨policy.milestoneReleaseReqs mid, policy.milestoneRefundReqs mid, policy.milestoneRules mid,
      policy.milestoneRules mid⟩

def PolicyEvaluationResult.holdbackAt (res : PolicyEvaluationResult) : Option String → Option HoldbackOutcome
  | none => res.holdback.map HoldbackEvaluationResult.holdbackOutcome
  | some mid => ((res.milestoneResults.find? fun r => r.milestoneId == mid).bind
      MilestoneEvaluationResult.holdback).map HoldbackEvaluationResult.holdbackOutcome

/-- The release requirement of the holdback is among those that the base condition asks for. -/
def PolicyHoldback.NamesBase (hb : PolicyHoldback) (c : Clause) : Prop :=
  ∃ req ∈ c.releaseReqs, hb.releaseRequirementId = some req.requirementId

section

variable {hb : PolicyHoldback} {c : Clause} {proofs : List SettlementProof} {ids : List String} {tipHeight : Nat}

theorem releaseRequirementMet_iff (h : ∀ req ∈ c.releaseReqs, reqSatisfiedThreshold req proofs ids) :
    releaseRequirementMet hb c.releaseReqs proofs ids ↔ hb.NamesBase c := by
  unfold releaseRequirementMet PolicyHoldback.NamesBase
  cases hb.releaseRequirementId with
  | none => simp
  | some reqId =>
    simp only [Option.any_some, List.any_eq_true, Bool.and_eq_true, beq_iff_eq, Option.some.injEq]
    constructor
    · rintro ⟨req, hreq, hid, -⟩
      exact ⟨req, hreq, hid.symm⟩
    · rintro ⟨req, hreq, hid⟩
      exact ⟨req, hreq, hid.symm, h req hreq⟩

theorem evaluateHoldback_met (h : ∀ req ∈ c.releaseReqs, reqSatisfiedThreshold req proofs ids) :
    let outcome := (evaluateHoldback hb true c.releaseReqs proofs ids tipHeight).holdbackOutcome
    (outcome = .released ↔ hb.NamesBase c ∨ ∃ d ∈ hb.deadlineHeight, d ≤ tipHeight) ∧
      (outcome = .held ↔ ¬(hb.NamesBase c ∨ ∃ d ∈ hb.deadlineHeight, d ≤ tipHeight)) := by
  have hreq := @releaseRequirementMet_iff hb c proofs ids h
  have hdue : (hb.deadlineHeight.any fun d => d ≤ tipHeight) ↔ ∃ d ∈ hb.deadlineHeight, d ≤ tipHeight := by
    cases hb.deadlineHeight <;> simp
  rw [← hreq, ← hdue]
  unfold evaluateHoldback
  simp only [Bool.not_true, Bool.false_eq_true, if_false]
  by_cases hmet : releaseRequirementMet hb c.releaseReqs proofs ids
  · simp [hmet]
  · by_cases hcame : (hb.deadlineHeight.any fun d => decide (d ≤ tipHeight))
    · simp [hmet, hcame]
    · simp [hmet, hcame]

end

section

variable {C : Crypto} {a : AgreementObject} {policy : ProofPolicy} {proofs : List SettlementProof} {tipHeight : Nat}
  {res : PolicyEvaluationResult} {place : Option String} {hb : PolicyHoldback}

/-- The base condition of a holdback that is looked at holds for these proofs. -/
def ProofPolicy.BaseMet (C : Crypto) (a : AgreementObject) (policy : ProofPolicy) (place : Option String)
    (proofs : List SettlementProof) : Prop :=
  (place = none → policy.milestones = []) ∧
    (policy.clauseAt place).Met proofs (satisfiedIds C (canonicalHashHex C a) policy proofs)

theorem evaluateMilestone_holdback (ids : List String) (ms : PolicyMilestone) :
    (evaluateMilestone policy proofs ids tipHeight ms).holdback = ms.holdback.map fun hb =>
      evaluateHoldback hb (decide ((policy.clauseAt (some ms.milestoneId)).Met proofs ids))
        (policy.milestoneReleaseReqs ms.milestoneId) proofs ids tipHeight := by
  have houtcome := congrArg Prod.fst (@evalMilestoneSubset_verdict proofs ids tipHeight
    (policy.milestoneReleaseReqs ms.milestoneId) (policy.milestoneRefundReqs ms.milestoneId)
    (policy.milestoneRules ms.milestoneId))
  dsimp only at houtcome
  have hbase : ((evalMilestoneSubset (policy.milestoneReleaseReqs ms.milestoneId)
      (policy.milestoneRefundReqs ms.milestoneId) (policy.milestoneRules ms.milestoneId) proofs ids
      tipHeight).outcome == .satisfied) = decide ((policy.clauseAt (some ms.milestoneId)).Met proofs ids) := by
    rw [Bool.eq_iff_iff, beq_iff_eq, decide_eq_true_eq, houtcome]
    exact Verdict.outcome_eq_satisfied.trans Clause.verdict_eq_satisfied
  rw [← hbase]
  rfl

theorem holdbackAt_cases (hok : evaluatePolicy C a policy proofs tipHeight = .ok res)
    (hhb : policy.holdbackAt place = some hb) :
    (policy.BaseMet C a place proofs ∧
      ∃ ids, (∀ req ∈ (policy.clauseAt place).releaseReqs, reqSatisfiedThreshold req proofs ids) ∧
        res.holdbackAt place = some
          (evaluateHoldback hb true (policy.clauseAt place).releaseReqs proofs ids tipHeight).holdbackOutcome) ∨
      (¬policy.BaseMet C a place proofs ∧ (res.holdbackAt place = none ∨ res.holdbackAt place = some .pending)) := by
  obtain ⟨-, rfl⟩ := evaluatePolicy_eq_ok.mp hok
  generalize hids : satisfiedIds C (canonicalHashHex C a) policy proofs = ids
  cases place with
  | none =>
    by_cases hms : policy.milestones = []
    · rw [if_neg (not_not_intro hms), PolicyEvaluationResult.holdbackAt, evaluateWhole_spec.2]
      by_cases hmet : policy.wholeClause.Met proofs ids
      · refine .inl ⟨⟨fun _ => hms, hids ▸ hmet⟩, policy.wholeClause.timely proofs ids, hmet.2, ?_⟩
        have hhb' : policy.holdback = some hb := hhb
        rw [if_pos hmet, hhb']
        rfl
      · exact .inr ⟨fun h => hmet (hids ▸ h.2), .inl (by rw [if_neg hmet]; rfl)⟩
    · refine .inr ⟨fun h => hms (h.1 rfl), .inl ?_⟩
      rw [if_pos hms]
      rfl
  | some mid =>
    obtain ⟨ms, hfind, hms⟩ := Option.bind_eq_some_iff.mp hhb
    have hid : ms.milestoneId = mid := by simpa using List.find?_some hfind
    have hne : policy.milestones ≠ [] := List.ne_nil_of_mem (List.mem_of_find?_eq_some hfind)
    subst hid
    have hreported : (evaluateMilestones policy proofs ids tipHeight
        (proofs.map (proofRule C (canonicalHashHex C a) policy))).holdbackAt (some ms.milestoneId) =
          some (evaluateHoldback hb (decide ((policy.clauseAt (some ms.milestoneId)).Met proofs ids))
            (policy.milestoneReleaseReqs ms.milestoneId) proofs ids tipHeight).holdbackOutcome := by
      have hmap : ((policy.milestones.map (evaluateMilestone policy proofs ids tipHeight)).find? fun r =>
          r.milestoneId == ms.milestoneId) = some (evaluateMilestone policy proofs ids tipHeight ms) := by
        rw [List.find?_map]
        exact congrArg (Option.map _) hfind
      rw [PolicyEvaluationResult.holdbackAt, evaluateMilestones, hmap, Option.bind_some, evaluateMilestone_holdback, hms]
      rfl
    rw [if_pos hne, hreported]
    by_cases hmet : (policy.clauseAt (some ms.milestoneId)).Met proofs ids
    · refine .inl ⟨⟨fun h => (by cases h), hids ▸ hmet⟩, ids, fun req hreq => hmet.requirement hreq, ?_⟩
      rw [decide_eq_true hmet]
      rfl
    · refine .inr ⟨fun h => hmet (hids ▸ h.2), .inr ?_⟩
      rw [decide_eq_false hmet]
      rfl

/-- An evaluation reports the holdback as held or released exactly if its base condition is met, and then by the
named requirement and the deadline. -/
theorem holdbackAt_eq (hok : evaluatePolicy C a policy proofs tipHeight = .ok res)
    (hhb : policy.holdbackAt place = some hb) :
    (res.holdbackAt place = some .released ↔ policy.BaseMet C a place proofs ∧
        (hb.NamesBase (policy.clauseAt place) ∨ ∃ d ∈ hb.deadlineHeight, d ≤ tipHeight)) ∧
      (res.holdbackAt place = some .held ↔ policy.BaseMet C a place proofs ∧
        ¬(hb.NamesBase (policy.clauseAt place) ∨ ∃ d ∈ hb.deadlineHeight, d ≤ tipHeight)) := by
  rcases holdbackAt_cases hok hhb with ⟨hbase, ids, hreqs, hreported⟩ | ⟨hbase, hnone | hpending⟩
  · have houtcome := @evaluateHoldback_met hb (policy.clauseAt place) proofs ids tipHeight hreqs
    rw [hreported, Option.some.injEq, Option.some.injEq]
    simpa only [hbase, true_and] using houtcome
  · simp [hnone, hbase]
  · simp [hpending, hbase]

def Reports (C : Crypto) (a : AgreementObject) (policy : ProofPolicy) (place : Option String)
    (outcome : HoldbackOutcome) : Prop :=
  ∃ proofs tipHeight res, evaluatePolicy C a policy proofs tipHeight = .ok res ∧ res.holdbackAt place = some outcome

/-- A holdback can be reported both as held and as released exactly if its base condition can be met and does not ask
for the requirement of the holdback, and it has a deadline after height 0. -/
theorem holdback_effective_iff (hhash : eqIgnoreAsciiCase policy.agreementHash (canonicalHashHex C a))
    (hhb : policy.holdbackAt place = some hb) :
    (Reports C a policy place .held ∧ Reports C a policy place .released) ↔
      (∃ proofs, policy.BaseMet C a place proofs) ∧ ¬hb.NamesBase (policy.clauseAt place) ∧
        ∃ d ∈ hb.deadlineHeight, 0 < d := by
  constructor
  · rintro ⟨⟨proofs, tip, res, hok, hheld⟩, proofs', tip', res', hok', hreleased⟩
    obtain ⟨hbase, hnot⟩ := (holdbackAt_eq hok hhb).2.mp hheld
    obtain ⟨-, hcame⟩ := (holdbackAt_eq hok' hhb).1.mp hreleased
    rcases hcame with hnamed | ⟨d, hd, -⟩
    · exact absurd (.inl hnamed) hnot
    · refine ⟨⟨proofs, hbase⟩, fun h => hnot (.inl h), d, hd, Nat.pos_of_ne_zero fun hzero => ?_⟩
      exact hnot (.inr ⟨d, hd, by omega⟩)
  · rintro ⟨⟨proofs, hbase⟩, hnamed, d, hd, hpos⟩
    have heval : ∀ tip, ∃ res, evaluatePolicy C a policy proofs tip = .ok res :=
      fun tip => ⟨_, evaluatePolicy_eq_ok.mpr ⟨hhash, rfl⟩⟩
    obtain ⟨res, hok⟩ := heval 0
    obtain ⟨res', hok'⟩ := heval d
    refine ⟨⟨proofs, 0, res, hok, (holdbackAt_eq hok hhb).2.mpr ⟨hbase, ?_⟩⟩,
      proofs, d, res', hok', (holdbackAt_eq hok' hhb).1.mpr ⟨hbase, .inr ⟨d, hd, le_rfl⟩⟩⟩
    rintro (h | ⟨d', hd', hle⟩)
    · exact hnamed h
    · obtain rfl : d' = d := Option.some.inj ((Option.mem_def.mp hd').symm.trans hd)
      omega

end

section

/-- The delivery releases the payment, except for a part that is held back. -/
def heldBackPolicy (hb : PolicyHoldback) : ProofPolicy where
  policyId := "held-back"
  agreementHash := encodeHex saleHash.bytes
  requiredProofs := [⟨"r1", "delivered", none, ["carrier"], .release, none, none⟩,
    ⟨"r2", "returned", none, ["carrier"], .refund, none, none⟩]
  attestors := [carrier]
  holdback := some hb

theorem heldBackPolicy_matches (hb : PolicyHoldback) :
    eqIgnoreAsciiCase (heldBackPolicy hb).agreementHash (canonicalHashHex saleCrypto saleAgreement) := by
  rw [saleAgreement_hash]
  exact beq_self_eq_true _

theorem heldBackPolicy_baseMet (hb : PolicyHoldback) :
    (heldBackPolicy hb).BaseMet saleCrypto saleAgreement none [deliveryProof] := by
  refine ⟨fun _ => rfl, ?_⟩
  rw [saleAgreement_hash, sale_satisfiedIds (List.mem_singleton_self _)]
  exact ⟨List.cons_ne_nil _ _, List.forall_mem_singleton.mpr rfl⟩

theorem holdback_effective_iff_deadline :
    Reports saleCrypto saleAgreement (heldBackPolicy ⟨1000, none, some 10⟩) none .held ∧
      Reports saleCrypto saleAgreement (heldBackPolicy ⟨1000, none, some 10⟩) none .released := by
  refine (holdback_effective_iff (heldBackPolicy_matches _) rfl).mpr
    ⟨⟨_, heldBackPolicy_baseMet _⟩, ?_, 10, rfl, by decide⟩
  rintro ⟨req, -, h⟩
  cases h

def Stored (policy : ProofPolicy) : Prop :=
  ∃ outcome s, PolicyStore.store ⟨∅⟩ policy false = .ok (outcome, s) ∧ outcome.accepted

/-- Two policies that are stored: the first holdback is released by the very delivery that the base condition asks
for, and the second waits for a refund requirement that is never looked at. -/
theorem holdback_ineffective :
    Stored (heldBackPolicy ⟨1000, some "r1", none⟩) ∧
      Reports saleCrypto saleAgreement (heldBackPolicy ⟨1000, some "r1", none⟩) none .released ∧
      ¬Reports saleCrypto saleAgreement (heldBackPolicy ⟨1000, some "r1", none⟩) none .held ∧
      Stored (heldBackPolicy ⟨1000, some "r2", none⟩) ∧
      Reports saleCrypto saleAgreement (heldBackPolicy ⟨1000, some "r2", none⟩) none .held ∧
      ¬Reports saleCrypto saleAgreement (heldBackPolicy ⟨1000, some "r2", none⟩) none .released := by
  have heval : ∀ hb, ∃ res, evaluatePolicy saleCrypto saleAgreement (heldBackPolicy hb) [deliveryProof] 0 = .ok res :=
    fun hb => ⟨_, evaluatePolicy_eq_ok.mpr ⟨heldBackPolicy_matches hb, rfl⟩⟩
  have hnamed : PolicyHoldback.NamesBase ⟨1000, some "r1", none⟩
      ((heldBackPolicy ⟨1000, some "r1", none⟩).clauseAt none) := ⟨_, List.mem_singleton_self _, rfl⟩
  have hnot : ∀ tip, ¬(PolicyHoldback.NamesBase ⟨1000, some "r2", none⟩
      ((heldBackPolicy ⟨1000, some "r2", none⟩).clauseAt none) ∨ ∃ d ∈ (none : Option Nat), d ≤ tip) := by
    rintro tip (⟨req, hreq, h⟩ | ⟨d, hd, -⟩)
    · obtain rfl := List.mem_singleton.mp hreq
      exact absurd h (by decide)
    · cases hd
  refine ⟨⟨_, _, store_empty (by decide), rfl⟩, ?_, ?_, ⟨_, _, store_empty (by decide), rfl⟩, ?_, ?_⟩
  · obtain ⟨res, hok⟩ := heval ⟨1000, some "r1", none⟩
    exact ⟨_, 0, res, hok, (holdbackAt_eq hok rfl).1.mpr ⟨heldBackPolicy_baseMet _, .inl hnamed⟩⟩
  · rintro ⟨proofs, tip, res, hok, hheld⟩
    exact ((holdbackAt_eq hok rfl).2.mp hheld).2 (.inl hnamed)
  · obtain ⟨res, hok⟩ := heval ⟨1000, some "r2", none⟩
    exact ⟨_, 0, res, hok, (holdbackAt_eq hok rfl).2.mpr ⟨heldBackPolicy_baseMet _, hnot 0⟩⟩
  · rintro ⟨proofs, tip, res, hok, hreleased⟩
    exact hnot tip ((holdbackAt_eq hok rfl).1.mp hreleased).2

end

end IriumConsensus
