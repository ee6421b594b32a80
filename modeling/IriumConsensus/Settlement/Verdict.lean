import IriumConsensus.Settlement.Policy
import Mathlib.Data.Finset.Card

namespace IriumConsensus

open ByteCodec Checks

variable {req : ProofRequirement} {ids : List String} {c : Clause}

section

def voters (fits : SettlementProof → Bool) (proofs : List SettlementProof) : Finset String :=
  ((proofs.filter fits).map SettlementProof.attestedBy).toFinset

variable {fits fits' : SettlementProof → Bool} {proofs proofs' : List SettlementProof}

theorem mem_voters {v : String} : v ∈ voters fits proofs ↔ ∃ p ∈ proofs, fits p ∧ p.attestedBy = v := by
  simp [voters, and_assoc]

theorem voters_cons (p : SettlementProof) :
    voters fits (p :: proofs) = if fits p then insert p.attestedBy (voters fits proofs) else voters fits proofs := by
  by_cases h : fits p
  · simp [voters, h]
  · simp [voters, h]

theorem voters_subset (h : ∀ p ∈ proofs, fits p → ∃ q ∈ proofs', fits' q ∧ q.attestedBy = p.attestedBy) :
    voters fits proofs ⊆ voters fits' proofs' := by
  intro v hv
  obtain ⟨p, hp, hfit, rfl⟩ := mem_voters.mp hv
  exact mem_voters.mpr (h p hp hfit)

theorem reachesThreshold_iff {threshold : Nat} {seen : List String} (hn : seen.Nodup) (hlt : seen.length < threshold) :
    reachesThreshold threshold fits seen proofs ↔ threshold ≤ (seen.toFinset ∪ voters fits proofs).card := by
  induction proofs generalizing seen with
  | nil =>
    have hcard : (seen.toFinset ∪ voters fits []).card = seen.length := by
      simp [voters, List.toFinset_card_of_nodup hn]
    rw [hcard]
    simp only [reachesThreshold, Bool.false_eq_true, false_iff]
    omega
  | cons p rest ih =>
    rw [reachesThreshold, voters_cons]
    by_cases hfit : fits p
    · have hn' : (seen.insert p.attestedBy).Nodup := hn.insert
      have hunion : seen.toFinset ∪ insert p.attestedBy (voters fits rest) =
          (seen.insert p.attestedBy).toFinset ∪ voters fits rest := by
        ext v
        simp [or_assoc]
      rw [if_pos hfit, if_pos hfit, hunion]
      by_cases hle : threshold ≤ (seen.insert p.attestedBy).length
      · have hsub : (seen.insert p.attestedBy).toFinset.card ≤
            ((seen.insert p.attestedBy).toFinset ∪ voters fits rest).card :=
          Finset.card_le_card Finset.subset_union_left
        rw [List.toFinset_card_of_nodup hn'] at hsub
        rw [if_pos hle]
        simp only [true_iff]
        omega
      · rw [if_neg hle]
        exact ih hn' (by omega)
    · rw [if_neg hfit, if_neg hfit]
      exact ih hn hlt

end

def ProofRequirement.quota (req : ProofRequirement) : Nat := max (req.threshold.getD 1) 1

structure ProofRequirement.Names (req : ProofRequirement) (p : SettlementProof) : Prop where
  type : p.proofType = req.proofType
  attestor : p.attestedBy ∈ req.requiredAttestorIds
  milestone : p.milestoneId = none ∨ req.milestoneId = none ∨ req.milestoneId = p.milestoneId

theorem proofFits_iff {p : SettlementProof} :
    proofFits req ids p ↔ p.proofId ∈ ids ∧ req.Names p := by
  simp only [proofFits, Bool.and_eq_true, Bool.or_eq_true, List.contains_eq_mem, decide_eq_true_eq, beq_iff_eq,
    Option.isNone_iff_eq_none]
  exact ⟨fun ⟨⟨⟨hid, ht⟩, ha⟩, hm⟩ => ⟨hid, ht, ha, by tauto⟩, fun ⟨hid, ht, ha, hm⟩ => ⟨⟨⟨hid, ht⟩, ha⟩, by tauto⟩⟩

theorem reqSatisfiedThreshold_iff {proofs : List SettlementProof} :
    reqSatisfiedThreshold req proofs ids ↔ req.quota ≤ (voters (proofFits req ids) proofs).card := by
  unfold reqSatisfiedThreshold
  dsimp only
  rw [← ProofRequirement.quota]
  by_cases h : req.quota = 1
  · rw [if_pos h, h, List.any_eq_true, Nat.one_le_iff_ne_zero, Finset.card_ne_zero]
    simp only [Finset.Nonempty, mem_voters]
    exact ⟨fun ⟨p, hp, hfit⟩ => ⟨_, p, hp, hfit, rfl⟩, fun ⟨_, p, hp, hfit, _⟩ => ⟨p, hp, hfit⟩⟩
  · have hpos : 0 < req.quota := by
      unfold ProofRequirement.quota
      omega
    rw [if_neg h, reachesThreshold_iff List.nodup_nil hpos]
    simp

theorem reqSatisfiedThreshold_mono {proofs proofs' : List SettlementProof}
    {ids' : List String}
    (h : ∀ p ∈ proofs, p.proofId ∈ ids → req.Names p →
      ∃ q ∈ proofs', q.proofId ∈ ids' ∧ req.Names q ∧ q.attestedBy = p.attestedBy)
    (hmet : reqSatisfiedThreshold req proofs ids) : reqSatisfiedThreshold req proofs' ids' := by
  rw [reqSatisfiedThreshold_iff] at hmet ⊢
  have hsub : voters (proofFits req ids) proofs ⊆ voters (proofFits req ids') proofs' := by
    refine voters_subset fun p hp hfit => ?_
    obtain ⟨hid, hnames⟩ := proofFits_iff.mp hfit
    obtain ⟨q, hq, hqid, hqnames, hby⟩ := h p hp hid hnames
    exact ⟨q, hq, proofFits_iff.mpr ⟨hqid, hqnames⟩, hby⟩
  exact hmet.trans (Finset.card_le_card hsub)

section

variable {C : Crypto} {agreementHash id : String} {policy : ProofPolicy} {proofs : List SettlementProof}

def Verified (C : Crypto) (agreementHash : String) (policy : ProofPolicy) (p : SettlementProof) : Prop :=
  checkProof C agreementHash policy p = .ok ()

instance (p : SettlementProof) : Decidable (Verified C agreementHash policy p) :=
  inferInstanceAs (Decidable (_ = _))

theorem mem_satisfiedIds : id ∈ satisfiedIds C agreementHash policy proofs ↔
    ∃ p ∈ proofs, Verified C agreementHash policy p ∧ p.proofId = id := by
  have hok : ∀ p, (checkProof C agreementHash policy p).isOk ↔ Verified C agreementHash policy p := by
    intro p
    unfold Verified
    cases checkProof C agreementHash policy p with
    | error e => simp [Except.isOk, Except.toBool]
    | ok u => simp [Except.isOk, Except.toBool]
  simp [satisfiedIds, hok, and_assoc]

theorem mem_timelyIds {cutoff : Option Nat} :
    id ∈ timelyIds cutoff proofs ids ↔
      id ∈ ids ∧ ∀ k ∈ cutoff, ∃ p ∈ proofs, p.proofId = id ∧ p.attestationTime ≤ k := by
  cases cutoff with
  | none => simp [timelyIds]
  | some k => simp [timelyIds]

end

/-- What is decided together: requirements and rules, and the rules whose refund deadline cuts off late proofs. -/
structure Clause where
  releaseReqs : List ProofRequirement
  refundReqs : List ProofRequirement
  rules : List NoResponseRule
  cutoffRules : List NoResponseRule

/-- The latest time at which a proof counts towards the release of a clause. -/
def Clause.cutoff (c : Clause) : Option Nat := refundCutoff c.cutoffRules

def Clause.timely (c : Clause) (proofs : List SettlementProof) (ids : List String) : List String :=
  timelyIds c.cutoff proofs ids

def Clause.Met (c : Clause) (proofs : List SettlementProof) (ids : List String) : Prop :=
  c.releaseReqs ≠ [] ∧ ∀ req ∈ c.releaseReqs, reqSatisfiedThreshold req proofs (c.timely proofs ids)

instance (c : Clause) (proofs : List SettlementProof) (ids : List String) : Decidable (c.Met proofs ids) :=
  inferInstanceAs (Decidable (_ ∧ _))

theorem allReleaseMet_eq_true {proofs : List SettlementProof} :
    allReleaseMet c.releaseReqs proofs (c.timely proofs ids) ↔ c.Met proofs ids := by
  simp [allReleaseMet, Clause.Met]

inductive Verdict where
  | satisfied
  | timeout (release : Bool)
  | undecided
  deriving DecidableEq, Repr

variable {v : Verdict} {policy : ProofPolicy}

namespace Verdict

def outcome : Verdict → PolicyOutcome
  | satisfied => .satisfied
  | timeout _ => .timeout
  | undecided => .unsatisfied

def releases : Verdict → Bool
  | satisfied => true
  | timeout release => release
  | undecided => false

def refunds : Verdict → Bool
  | satisfied => false
  | timeout release => !release
  | undecided => false

def report (v : Verdict) : PolicyOutcome × Bool × Bool := (v.outcome, v.releases, v.refunds)

theorem outcome_eq_satisfied : v.outcome = .satisfied ↔ v = satisfied := by
  cases v <;> simp [outcome]

theorem outcome_eq_timeout : v.outcome = .timeout ↔ ∃ release, v = timeout release := by
  cases v <;> simp [outcome]

theorem refunds_eq_true : v.refunds ↔ v = timeout false := by
  cases v <;> simp [refunds]

theorem releases_eq_true : v.releases ↔ v = satisfied ∨ v = timeout true := by
  cases v <;> simp [releases]

def all (verdicts : List Verdict) : Verdict :=
  if verdicts ≠ [] ∧ ∀ v ∈ verdicts, v = satisfied then satisfied
  else (verdicts.find? fun v => v.outcome = .timeout).getD undecided

variable {verdicts : List Verdict}

theorem all_eq_satisfied :
    all verdicts = satisfied ↔ verdicts ≠ [] ∧ ∀ v ∈ verdicts, v = satisfied := by
  unfold all
  refine ⟨fun h => ?_, fun h => if_pos h⟩
  by_contra hnot
  rw [if_neg hnot] at h
  cases hf : verdicts.find? fun v => v.outcome = .timeout with
  | none => simp [hf] at h
  | some v =>
    have hv := List.find?_some hf
    rw [hf] at h
    simp_all [outcome]

theorem all_eq_timeout {release : Bool} :
    all verdicts = timeout release ↔
      verdicts.find? (fun v => v.outcome = .timeout) = some (timeout release) := by
  unfold all
  split
  next h =>
    refine ⟨fun h' => absurd h' (by simp), fun hf => ?_⟩
    have hsat := h.2 _ (List.mem_of_find?_eq_some hf)
    exact absurd hsat (by simp)
  next =>
    cases hf : verdicts.find? fun v => v.outcome = .timeout with
    | none => simp
    | some v => simp

theorem all_singleton (v : Verdict) : all [v] = v := by
  cases v <;> simp [all, outcome]

end Verdict

/-- Release when every requirement is met, else what the first rule or refund deadline that has come says. -/
def Clause.verdict (c : Clause) (proofs : List SettlementProof) (ids : List String) (tipHeight : Nat) : Verdict :=
  if c.Met proofs ids then .satisfied
  else
    match firedRule c.rules tipHeight with
    | some rule => .timeout rule.resolution.releases
    | none =>
      match missedDeadline proofs ids tipHeight c.refundReqs with
      | some _ => .timeout false
      | none => .undecided

theorem Clause.verdict_eq_satisfied {proofs : List SettlementProof} {tipHeight : Nat} :
    c.verdict proofs ids tipHeight = .satisfied ↔ c.Met proofs ids := by
  unfold Clause.verdict
  refine ⟨fun h => ?_, fun h => if_pos h⟩
  by_contra hnot
  rw [if_neg hnot] at h
  split at h
  next => exact absurd h (by simp)
  next => split at h <;> exact absurd h (by simp)

def ProofPolicy.wholeClause (policy : ProofPolicy) : Clause :=
  ⟨policy.releaseReqs, policy.refundReqs, policy.noResponseRules,
    policy.noResponseRules.filter fun r => r.milestoneId.isNone⟩

theorem wholeClause_rules (policy : ProofPolicy) : policy.wholeClause.rules = policy.noResponseRules := rfl

theorem wholeClause_refundReqs (policy : ProofPolicy) : policy.wholeClause.refundReqs = policy.refundReqs := rfl

def ProofPolicy.milestoneClause (policy : ProofPolicy) (ms : PolicyMilestone) : Clause :=
  ⟨policy.milestoneReleaseReqs ms.milestoneId, policy.milestoneRefundReqs ms.milestoneId,
    policy.milestoneRules ms.milestoneId, policy.milestoneRules ms.milestoneId⟩

def ProofPolicy.clauses (policy : ProofPolicy) : List Clause :=
  if policy.milestones ≠ [] then policy.milestones.map policy.milestoneClause else [policy.wholeClause]

theorem ProofPolicy.clauses_whole (h : policy.milestones = []) :
    policy.clauses = [policy.wholeClause] := if_neg (not_not_intro h)

theorem ProofPolicy.clauses_milestones (h : policy.milestones ≠ []) :
    policy.clauses = policy.milestones.map policy.milestoneClause := if_pos h

theorem ProofPolicy.clauses_ne_nil (policy : ProofPolicy) : policy.clauses ≠ [] := by
  by_cases hms : policy.milestones = []
  · simp [ProofPolicy.clauses_whole hms]
  · simpa [ProofPolicy.clauses_milestones hms] using hms

def ProofPolicy.verdict (policy : ProofPolicy) (proofs : List SettlementProof) (ids : List String)
    (tipHeight : Nat) : Verdict :=
  Verdict.all (policy.clauses.map fun c => c.verdict proofs ids tipHeight)

section

variable {C : Crypto} {a : AgreementObject} {policy : ProofPolicy} {proofs : List SettlementProof}
  {ids : List String} {tipHeight : Nat} {rules : List String} {res : PolicyEvaluationResult}

theorem evaluatePolicy_eq_ok : evaluatePolicy C a policy proofs tipHeight = .ok res ↔
    eqIgnoreAsciiCase policy.agreementHash (canonicalHashHex C a) ∧
      res = if policy.milestones ≠ [] then
          evaluateMilestones policy proofs (satisfiedIds C (canonicalHashHex C a) policy proofs) tipHeight
            (proofs.map (proofRule C (canonicalHashHex C a) policy))
        else
          evaluateWhole policy proofs (satisfiedIds C (canonicalHashHex C a) policy proofs) tipHeight
            (proofs.map (proofRule C (canonicalHashHex C a) policy)) := by
  unfold evaluatePolicy
  simp only [bind_eq_ok, exists_unit, failIf_eq_ok, Bool.not_eq_true', Bool.not_eq_false]
  refine and_congr_right fun _ => ?_
  split
  next => rw [pure_eq_ok, eq_comm]
  next => rw [pure_eq_ok, eq_comm]

theorem evalMilestoneSubset_verdict (releaseReqs refundReqs : List ProofRequirement) (rs : List NoResponseRule) :
    let r := evalMilestoneSubset releaseReqs refundReqs rs proofs ids tipHeight
    (r.outcome, r.releaseEligible, r.refundEligible) =
      ((Clause.mk releaseReqs refundReqs rs rs).verdict proofs ids tipHeight).report := by
  have hall := @allReleaseMet_eq_true ids ⟨releaseReqs, refundReqs, rs, rs⟩ proofs
  simp only [Clause.timely, Clause.cutoff] at hall
  by_cases hmet : (Clause.mk releaseReqs refundReqs rs rs).Met proofs ids
  · simp only [evalMilestoneSubset, Clause.verdict, if_pos hmet, if_pos (hall.mpr hmet)]
    rfl
  · simp only [evalMilestoneSubset, Clause.verdict, if_neg hmet, if_neg (mt hall.mp hmet)]
    cases firedRule rs tipHeight with
    | some rule => rfl
    | none =>
      cases missedDeadline proofs ids tipHeight refundReqs with
      | some missed => rfl
      | none => rfl

/-- What the evaluation of a whole policy reports: the verdict on its clause, and a holdback once that is met. -/
theorem evaluateWhole_spec :
    let r := evaluateWhole policy proofs ids tipHeight rules
    (r.outcome, r.releaseEligible, r.refundEligible) = (policy.wholeClause.verdict proofs ids tipHeight).report ∧
      r.holdback = if policy.wholeClause.Met proofs ids then policy.holdback.map fun hb =>
          evaluateHoldback hb true policy.releaseReqs proofs (policy.wholeClause.timely proofs ids) tipHeight
        else none := by
  have hall := @allReleaseMet_eq_true ids policy.wholeClause proofs
  simp only [Clause.timely, Clause.cutoff, ProofPolicy.wholeClause] at hall
  by_cases hmet : policy.wholeClause.Met proofs ids
  · simp only [evaluateWhole, Clause.verdict, if_pos hmet, if_pos (hall.mpr hmet)]
    exact ⟨rfl, rfl⟩
  · simp only [evaluateWhole, Clause.verdict, if_neg hmet, if_neg (mt hall.mp hmet), wholeClause_rules,
      wholeClause_refundReqs]
    cases firedRule policy.noResponseRules tipHeight with
    | some rule => exact ⟨rfl, rfl⟩
    | none =>
      cases missedDeadline proofs ids tipHeight policy.refundReqs with
      | some missed => exact ⟨rfl, rfl⟩
      | none => exact ⟨rfl, rfl⟩

theorem aggregate_verdict {α : Type} {f : α → MilestoneEvaluationResult} {g : α → Verdict} {items : List α}
    (h : ∀ x, ((f x).outcome, (f x).releaseEligible, (f x).refundEligible) = (g x).report) :
    let r := aggregate (items.map f)
    (r.1, r.2.1, r.2.2.1) = (Verdict.all (items.map g)).report := by
  have houtcome : ∀ x, (f x).outcome = (g x).outcome := fun x => congrArg Prod.fst (h x)
  have hall : (0 < (items.map f).length ∧
      ((items.map f).countP fun r => r.outcome == .satisfied) = (items.map f).length) ↔
        items.map g ≠ [] ∧ ∀ v ∈ items.map g, v = .satisfied := by
    rw [List.countP_eq_length, List.length_pos_iff]
    simp [houtcome, Verdict.outcome_eq_satisfied]
  have hfind : ((items.map f).find? fun r => r.outcome == .timeout) =
      (items.find? fun x => (g x).outcome = .timeout).map f := by
    rw [List.find?_map]
    congr 2
    funext x
    rw [Function.comp_apply, houtcome x]
    rfl
  unfold aggregate Verdict.all
  by_cases hsat : items.map g ≠ [] ∧ ∀ v ∈ items.map g, v = .satisfied
  · simp only [if_pos hsat, if_pos (hall.mpr hsat)]
    rfl
  · simp only [if_neg hsat, if_neg (mt hall.mp hsat), hfind, List.find?_map, Function.comp_def]
    cases hx : items.find? fun x => (g x).outcome = .timeout with
    | none => rfl
    | some x =>
      have htimeout := List.find?_some hx
      have hreport := h x
      rw [decide_eq_true_eq, ← houtcome x] at htimeout
      rwa [htimeout] at hreport

theorem evaluatePolicy_verdict (h : evaluatePolicy C a policy proofs tipHeight = .ok res) :
    (res.outcome, res.releaseEligible, res.refundEligible) =
      (policy.verdict proofs (satisfiedIds C (canonicalHashHex C a) policy proofs) tipHeight).report := by
  obtain ⟨-, rfl⟩ := evaluatePolicy_eq_ok.mp h
  unfold ProofPolicy.verdict ProofPolicy.clauses
  by_cases hms : policy.milestones ≠ []
  · rw [if_pos hms, if_pos hms, List.map_map]
    exact aggregate_verdict fun ms => evalMilestoneSubset_verdict _ _ _
  · rw [if_neg hms, if_neg hms, List.map_singleton, Verdict.all_singleton]
    exact evaluateWhole_spec.1

theorem evaluatePolicy_flags (h : evaluatePolicy C a policy proofs tipHeight = .ok res) :
    let v := policy.verdict proofs (satisfiedIds C (canonicalHashHex C a) policy proofs) tipHeight
    res.outcome = v.outcome ∧ res.releaseEligible = v.releases ∧ res.refundEligible = v.refunds := by
  simpa only [Verdict.report, Prod.mk.injEq] using evaluatePolicy_verdict h

theorem evaluatePolicy_satisfied (h : evaluatePolicy C a policy proofs tipHeight = .ok res) :
    res.outcome = .satisfied ↔ policy.clauses ≠ [] ∧
      ∀ c ∈ policy.clauses, c.Met proofs (satisfiedIds C (canonicalHashHex C a) policy proofs) := by
  rw [(evaluatePolicy_flags h).1, Verdict.outcome_eq_satisfied, ProofPolicy.verdict, Verdict.all_eq_satisfied]
  simp [Clause.verdict_eq_satisfied]

theorem evaluatePolicy_released (h : evaluatePolicy C a policy proofs tipHeight = .ok res)
    (hsat : res.outcome = .satisfied) : res.releaseEligible := by
  obtain ⟨houtcome, hrel, -⟩ := evaluatePolicy_flags h
  rw [hrel, Verdict.releases_eq_true]
  exact .inl (Verdict.outcome_eq_satisfied.mp (houtcome.symm.trans hsat))

end

end IriumConsensus
