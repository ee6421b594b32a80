import IriumConsensus.Settlement.Payout
import Mathlib.Algebra.Order.BigOperators.Group.List
import Mathlib.Algebra.Order.Group.Nat

namespace IriumConsensus

open ByteCodec Checks FinMaps

section

variable {c : Clause} {proofs : List SettlementProof} {ids : List String} {tipHeight : Nat}

/-- A deadline has come before the requirements were met: the first rule that has fired decides, and without one a
refund deadline that was missed. -/
def Clause.DueFor (c : Clause) (release : Bool) (proofs : List SettlementProof) (ids : List String) (tipHeight : Nat) :
    Prop :=
  ¬c.Met proofs ids ∧ ((∃ r, firedRule c.rules tipHeight = some r ∧ r.resolution.releases = release) ∨
    (release = false ∧ firedRule c.rules tipHeight = none ∧
      ∃ missed, missedDeadline proofs ids tipHeight c.refundReqs = some missed))

theorem Clause.verdict_eq_timeout {release : Bool} :
    c.verdict proofs ids tipHeight = .timeout release ↔ c.DueFor release proofs ids tipHeight := by
  unfold Clause.verdict Clause.DueFor
  by_cases hmet : c.Met proofs ids
  · simp [hmet]
  · rw [if_neg hmet]
    cases hf : firedRule c.rules tipHeight with
    | some r => simp [hmet]
    | none =>
      cases hm : missedDeadline proofs ids tipHeight c.refundReqs with
      | some missed => simp [hmet, eq_comm]
      | none => simp

end

def earned (a : AgreementObject) (result : PolicyEvaluationResult) : Nat :=
  ((a.milestones.filter fun m => result.milestoneResults.any fun r =>
    r.milestoneId == m.milestoneId && r.outcome == .satisfied).map fun m => m.amount.toNat).sum

def Isolated (a : AgreementObject) (result : PolicyEvaluationResult) (actions : List SettlementAction) : Prop :=
  ∀ action ∈ actions, action.action = "refund" → action.amountSat.toNat + earned a result ≤ a.totalAmount.toNat

/-- The first milestone in the list whose deadline has come is due for a refund, while the requirements of one that
the agreement pays for are met. -/
def RefundBesideEarned (a : AgreementObject) (policy : ProofPolicy) (proofs : List SettlementProof)
    (ids : List String) (tipHeight : Nat) : Prop :=
  (∃ before ms after, policy.milestones = before ++ ms :: after ∧
    (policy.milestoneClause ms).DueFor false proofs ids tipHeight ∧
      ∀ e ∈ before, ∀ release, ¬(policy.milestoneClause e).DueFor release proofs ids tipHeight) ∧
  ∃ paid ∈ policy.milestones, (policy.milestoneClause paid).Met proofs ids ∧
    ∃ m ∈ a.milestones, m.milestoneId = paid.milestoneId

section

variable {C : Crypto} {a : AgreementObject} {policy : ProofPolicy} {proofs : List SettlementProof} {tipHeight : Nat}
  {res : PolicyEvaluationResult} {ids : List String}

theorem validateMilestones_amount {seen : List String} {milestones : List AgreementMilestone}
    (h : validateMilestones seen milestones = .ok ()) : ∀ m ∈ milestones, 0 < m.amount.toNat := by
  induction milestones generalizing seen with
  | nil => simp
  | cons m rest ih =>
    rw [validateMilestones] at h
    simp only [bind_eq_ok, exists_unit, failIf_eq_ok] at h
    obtain ⟨-, -, -, hamount, -, -, -, -, hrest⟩ := h
    refine List.forall_mem_cons.mpr ⟨?_, ih hrest⟩
    by_contra hzero
    exact hamount (UInt64.toNat_inj.mp (by rw [UInt64.toNat_zero]; omega))

theorem validate_amount (h : a.validate = .ok ()) : ∀ m ∈ a.milestones, 0 < m.amount.toNat := by
  unfold AgreementObject.validate at h
  simp only [bind_eq_ok, exists_unit] at h
  obtain ⟨-, -, -, -, -, -, -, -, -, -, -, -, -, -, -, -, -, -, -, -, -, -, -, -, -, -, hms, -⟩ := h
  exact validateMilestones_amount hms

theorem earned_eq_zero_iff (hvalid : a.validate = .ok ()) : earned a res = 0 ↔
    ∀ m ∈ a.milestones, ∀ r ∈ res.milestoneResults, r.outcome = .satisfied → r.milestoneId ≠ m.milestoneId := by
  rw [earned, List.sum_eq_zero_iff]
  have hpos := validate_amount hvalid
  constructor
  · intro h m hm r hr hsat heq
    have hzero := h m.amount.toNat (List.mem_map_of_mem (List.mem_filter.mpr ⟨hm, List.any_eq_true.mpr
      ⟨r, hr, by simp [heq, hsat]⟩⟩))
    have := hpos m hm
    omega
  · intro h n hn
    obtain ⟨m, hm, rfl⟩ := List.mem_map.mp hn
    obtain ⟨hm, hany⟩ := List.mem_filter.mp hm
    obtain ⟨r, hr, hboth⟩ := List.any_eq_true.mp hany
    rw [Bool.and_eq_true, beq_iff_eq, beq_iff_eq] at hboth
    exact absurd hboth.1 (h m hm r hr hboth.2)

theorem evaluatePolicy_milestoneResults (h : evaluatePolicy C a policy proofs tipHeight = .ok res)
    (hms : policy.milestones ≠ []) : res.milestoneResults = policy.milestones.map
      (evaluateMilestone policy proofs (satisfiedIds C (canonicalHashHex C a) policy proofs) tipHeight) := by
  obtain ⟨-, rfl⟩ := evaluatePolicy_eq_ok.mp h
  rw [if_pos hms]
  rfl

theorem evaluateMilestone_satisfied (ms : PolicyMilestone) :
    (evaluateMilestone policy proofs ids tipHeight ms).outcome = .satisfied ↔
      (policy.milestoneClause ms).Met proofs ids := by
  have houtcome : (evaluateMilestone policy proofs ids tipHeight ms).outcome =
      ((policy.milestoneClause ms).verdict proofs ids tipHeight).outcome :=
    congrArg Prod.fst (evalMilestoneSubset_verdict _ _ _)
  rw [houtcome, Verdict.outcome_eq_satisfied, Clause.verdict_eq_satisfied]

theorem verdict_refund_iff (hms : policy.milestones ≠ []) :
    policy.verdict proofs ids tipHeight = .timeout false ↔
      ∃ before ms after, policy.milestones = before ++ ms :: after ∧
        (policy.milestoneClause ms).DueFor false proofs ids tipHeight ∧
          ∀ e ∈ before, ∀ release, ¬(policy.milestoneClause e).DueFor release proofs ids tipHeight := by
  rw [ProofPolicy.verdict, ProofPolicy.clauses_milestones hms, List.map_map, Verdict.all_eq_timeout, List.find?_map,
    Option.map_eq_some_iff]
  simp only [List.find?_eq_some_iff_append, Function.comp_apply, Clause.verdict_eq_timeout, Bool.not_eq_true',
    decide_eq_false_iff_not, Verdict.outcome_eq_timeout, not_exists]
  constructor
  · rintro ⟨ms, ⟨-, before, after, heq, hbefore⟩, hdue⟩
    exact ⟨before, ms, after, heq, hdue, hbefore⟩
  · rintro ⟨before, ms, after, heq, hdue, hbefore⟩
    refine ⟨ms, ⟨?_, before, after, heq, hbefore⟩, hdue⟩
    exact decide_eq_true ⟨false, Clause.verdict_eq_timeout.mpr hdue⟩

theorem settlementActions_release (hrel : res.releaseEligible) :
    ∀ action ∈ settlementActions a res, action.action = "release" := by
  rw [settlementActions, if_pos hrel]
  cases res.holdback with
  | none => simp
  | some hb =>
    refine List.forall_mem_cons.mpr ⟨rfl, ?_⟩
    split
    next => simp
    next => simp

theorem isolated_iff (hflags : res.refundEligible → res.releaseEligible = false) :
    Isolated a res (settlementActions a res) ↔ (res.refundEligible → earned a res = 0) := by
  unfold Isolated
  cases hrel : res.releaseEligible with
  | true =>
    refine iff_of_true (fun action haction hrefund => ?_) fun href => ?_
    · exact absurd ((settlementActions_release hrel action haction).symm.trans hrefund) (by decide)
    · exact absurd (hrel.symm.trans (hflags href)) (by simp)
  | false =>
    rw [settlementActions, hrel, if_neg Bool.false_ne_true]
    cases href : res.refundEligible with
    | true =>
      simp only [if_true, List.forall_mem_singleton, forall_const]
      omega
    | false => simp

/-- A refund leaves what is earned exactly when no milestone is due for a refund beside one that is met. -/
theorem milestones_isolated_iff {node : SettlementNode} {resp : BuildSettlementTxResponse}
    (hbuild : buildSettlementTx C node a = .ok resp)
    (hget : node.policyStore.get (canonicalHashHex C a) = some policy) (hms : policy.milestones ≠ [])
    (heval : evaluatePolicy C a policy (node.activeProofs (canonicalHashHex C a)) node.tipHeight = .ok res) :
    Isolated a res resp.actions ↔ ¬RefundBesideEarned a policy (node.activeProofs (canonicalHashHex C a))
      (satisfiedIds C (canonicalHashHex C a) policy (node.activeProofs (canonicalHashHex C a))) node.tipHeight := by
  obtain ⟨hvalid, hresp⟩ := buildSettlementTx_eq_ok.mp hbuild
  dsimp only at hresp
  rw [hget] at hresp
  obtain ⟨res', heval', rfl⟩ := hresp
  obtain rfl : res' = res := Except.ok.inj (heval'.symm.trans heval)
  obtain ⟨-, hrel, href⟩ := evaluatePolicy_flags heval
  have hrefund : res'.refundEligible ↔ _ :=
    href ▸ Verdict.refunds_eq_true.trans (verdict_refund_iff hms)
  have hflags : res'.refundEligible → res'.releaseEligible = false := by
    rw [hrel, href, Verdict.refunds_eq_true]
    intro hv
    rw [hv]
    rfl
  rw [isolated_iff hflags, hrefund, earned_eq_zero_iff hvalid, evaluatePolicy_milestoneResults heval hms,
    RefundBesideEarned, not_and]
  refine imp_congr_right fun _ => ?_
  simp only [List.forall_mem_map, evaluateMilestone_satisfied]
  constructor
  · rintro h ⟨paid, hpaid, hmet, m, hm, heq⟩
    exact h m hm paid hpaid hmet heq.symm
  · intro h m hm paid hpaid hmet heq
    exact h ⟨paid, hpaid, hmet, m, hm, heq.symm⟩

end

/-- The first milestone asks for the delivery, the second for an inspection up to height 8. -/
def splitPolicy : ProofPolicy :=
  { deliveryPolicy with
    requiredProofs := [⟨"r1", "delivered", none, ["carrier"], .milestoneRelease, some "m1", none⟩,
      ⟨"r2", "inspected", none, ["carrier"], .milestoneRelease, some "m2", none⟩]
    noResponseRules := [⟨"deadline", 8, .fundedAndNoRelease, .refund, some "m2"⟩]
    milestones := [⟨"m1", none, none⟩, ⟨"m2", none, none⟩] }

theorem saleNode_evaluate (policy : ProofPolicy) (hhash : policy.agreementHash = encodeHex saleHash.bytes)
    (h : carrier ∈ policy.attestors) (hms : policy.milestones ≠ []) (tipHeight : Nat) :
    ∃ notes, evaluatePolicy saleCrypto saleAgreement policy
      ((saleNode policy tipHeight).activeProofs (canonicalHashHex saleCrypto saleAgreement)) tipHeight =
        .ok (evaluateMilestones policy [deliveryProof] ["p1"] tipHeight notes) := by
  obtain ⟨notes, heval⟩ := sale_evaluate hhash h tipHeight
  rw [if_pos hms] at heval
  refine ⟨notes, ?_⟩
  rw [saleNode_activeProofs]
  exact heval

/-- Both milestones ask for the inspection. -/
def inspectedPolicy : ProofPolicy :=
  { splitPolicy with requiredProofs := splitPolicy.requiredProofs.map fun req => { req with proofType := "inspected" } }

theorem refund_isolated_nothing_earned :
    ∃ resp res, buildSettlementTx saleCrypto (saleNode inspectedPolicy 9) saleAgreement = .ok resp ∧
      evaluatePolicy saleCrypto saleAgreement inspectedPolicy
        ((saleNode inspectedPolicy 9).activeProofs (canonicalHashHex saleCrypto saleAgreement)) 9 = .ok res ∧
      resp.actions.map (fun action => (action.action, action.amountSat)) = [("refund", 100000)] ∧
      Isolated saleAgreement res resp.actions := by
  have hattestor : carrier ∈ inspectedPolicy.attestors := List.mem_singleton_self _
  obtain ⟨notes, heval⟩ := saleNode_evaluate inspectedPolicy rfl hattestor (by decide) 9
  have hbuild := buildSettlementTx_stored saleAgreement_valid (saleNode_policy rfl 9) heval
  refine ⟨_, _, hbuild, heval, rfl, (milestones_isolated_iff hbuild (saleNode_policy rfl 9) (by decide) heval).mpr ?_⟩
  rw [saleNode_activeProofs, saleAgreement_hash, sale_satisfiedIds hattestor]
  rintro ⟨-, paid, hpaid, hmet, -⟩
  have hunmet : ∀ ms ∈ inspectedPolicy.milestones,
      ¬(inspectedPolicy.milestoneClause ms).Met [deliveryProof] ["p1"] := by decide
  exact hunmet paid hpaid hmet

theorem refund_takes_earned_milestone :
    ∃ resp res, buildSettlementTx saleCrypto (saleNode splitPolicy 9) saleAgreement = .ok resp ∧
      evaluatePolicy saleCrypto saleAgreement splitPolicy
        ((saleNode splitPolicy 9).activeProofs (canonicalHashHex saleCrypto saleAgreement)) 9 = .ok res ∧
      earned saleAgreement res = 60000 ∧ saleAgreement.totalAmount = 100000 ∧
      resp.actions.map (fun action => (action.action, action.amountSat, action.executable)) =
        [("refund", 100000, true)] := by
  obtain ⟨notes, heval⟩ := saleNode_evaluate splitPolicy rfl (List.mem_singleton_self _) (by decide) 9
  exact ⟨_, _, buildSettlementTx_stored saleAgreement_valid (saleNode_policy rfl 9) heval, heval, rfl, rfl, rfl⟩

section

variable {C : Crypto} {a : AgreementObject} {policy : ProofPolicy} {proofs : List SettlementProof} {tipHeight : Nat}
  {res : PolicyEvaluationResult} {req : ProofRequirement}

def ProofPolicy.Orphaned (policy : ProofPolicy) (req : ProofRequirement) : Prop :=
  policy.milestones ≠ [] ∧ ∀ ms ∈ policy.milestones, req.milestoneId ≠ some ms.milestoneId

def Ignores (policy : ProofPolicy) (proofs : List SettlementProof) (ids : List String) : Prop :=
  (∀ c ∈ policy.clauses, c.Met proofs ids) ∧
    ∃ req ∈ policy.releaseReqs, policy.Orphaned req ∧ reqSatisfiedThreshold req proofs ids = false

theorem Clause.Met.requirement {c : Clause} {ids : List String} (h : c.Met proofs ids) (hreq : req ∈ c.releaseReqs) :
    reqSatisfiedThreshold req proofs ids := by
  refine reqSatisfiedThreshold_mono (fun p hp hid hnames => ?_) (h.2 req hreq)
  exact ⟨p, hp, (mem_timelyIds.mp hid).1, hnames, rfl⟩

theorem ProofPolicy.clause_of_not_orphaned (hreq : req ∈ policy.releaseReqs) (h : ¬policy.Orphaned req) :
    ∃ c ∈ policy.clauses, req ∈ c.releaseReqs := by
  by_cases hms : policy.milestones = []
  · rw [ProofPolicy.clauses_whole hms]
    exact ⟨_, List.mem_singleton_self _, hreq⟩
  · obtain ⟨ms, hmem, hid⟩ : ∃ ms ∈ policy.milestones, req.milestoneId = some ms.milestoneId := by
      by_contra hnone
      push Not at hnone
      exact h ⟨hms, hnone⟩
    rw [ProofPolicy.clauses_milestones hms]
    obtain ⟨hrequired, hrelease⟩ := List.mem_filter.mp hreq
    refine ⟨_, List.mem_map_of_mem hmem, List.mem_filter.mpr ⟨hrequired, ?_⟩⟩
    simp [hid, hrelease]

theorem satisfied_covers_iff (heval : evaluatePolicy C a policy proofs tipHeight = .ok res) :
    (res.outcome = .satisfied → ∀ req ∈ policy.releaseReqs,
      reqSatisfiedThreshold req proofs (satisfiedIds C (canonicalHashHex C a) policy proofs)) ↔
      ¬Ignores policy proofs (satisfiedIds C (canonicalHashHex C a) policy proofs) := by
  rw [evaluatePolicy_satisfied heval]
  constructor
  · rintro h ⟨hmet, req, hreq, -, hunmet⟩
    exact absurd ((h ⟨policy.clauses_ne_nil, hmet⟩ req hreq).symm.trans hunmet) (by simp)
  · rintro h ⟨-, hmet⟩ req hreq
    by_cases horphan : policy.Orphaned req
    · by_contra hunmet
      exact h ⟨hmet, req, hreq, horphan, by simpa using hunmet⟩
    · obtain ⟨c, hc, hmem⟩ := ProofPolicy.clause_of_not_orphaned hreq horphan
      exact (hmet c hc).requirement hmem

theorem store_accepted {s s' : PolicyStore} {replace : Bool} {outcome : StorePolicyOutcome}
    (hstore : s.store policy replace = .ok (outcome, s')) (haccepted : outcome.accepted) :
    s'.get policy.agreementHash = some policy := by
  unfold PolicyStore.store at hstore
  simp only [bind_eq_ok, exists_unit] at hstore
  obtain ⟨-, hstore⟩ := hstore
  have hinserted : PolicyStore.get ⟨s.policies.insert (asciiLower policy.agreementHash) policy⟩ policy.agreementHash =
      some policy := Finmap.lookup_insert _
  cases hold : s.policies.lookup (asciiLower policy.agreementHash) with
  | none =>
    rw [hold] at hstore
    obtain ⟨rfl, rfl⟩ := Prod.mk.inj (pure_eq_ok.mp hstore)
    exact hinserted
  | some existing =>
    rw [hold] at hstore
    dsimp only at hstore
    split at hstore
    next =>
      obtain ⟨rfl, -⟩ := Prod.mk.inj (pure_eq_ok.mp hstore)
      exact absurd haccepted (by simp)
    next =>
      split at hstore
      next =>
        obtain ⟨rfl, rfl⟩ := Prod.mk.inj (pure_eq_ok.mp hstore)
        exact hinserted
      next =>
        obtain ⟨rfl, -⟩ := Prod.mk.inj (pure_eq_ok.mp hstore)
        exact absurd haccepted (by simp)

theorem store_empty (hvalid : policy.validate = .ok ()) : PolicyStore.store ⟨∅⟩ policy false =
    .ok (⟨policy.policyId, policy.agreementHash, true, false, "policy accepted"⟩,
      ⟨(∅ : FinMap String ProofPolicy).insert (asciiLower policy.agreementHash) policy⟩) := by
  rw [PolicyStore.store, hvalid]
  rfl

/-- A stored policy is reported as satisfied only with every release requirement met, exactly when no requirement
outside the milestones is left unmet; it always is when each of them names a declared milestone. -/
theorem stored_policy_covered_iff {s s' : PolicyStore} {replace : Bool} {outcome : StorePolicyOutcome}
    (hstore : s.store policy replace = .ok (outcome, s')) (haccepted : outcome.accepted) :
    s'.get policy.agreementHash = some policy ∧
      ∀ (a : AgreementObject) (proofs : List SettlementProof) (tipHeight : Nat) (res : PolicyEvaluationResult),
        evaluatePolicy C a policy proofs tipHeight = .ok res →
        ((res.outcome = .satisfied → ∀ req ∈ policy.releaseReqs,
            reqSatisfiedThreshold req proofs (satisfiedIds C (canonicalHashHex C a) policy proofs)) ↔
          ¬Ignores policy proofs (satisfiedIds C (canonicalHashHex C a) policy proofs)) ∧
        ((∀ req ∈ policy.releaseReqs, ¬policy.Orphaned req) →
          ¬Ignores policy proofs (satisfiedIds C (canonicalHashHex C a) policy proofs)) := by
  refine ⟨store_accepted hstore haccepted, fun a proofs tipHeight res heval => ⟨satisfied_covers_iff heval, ?_⟩⟩
  rintro hdeclared ⟨-, req, hreq, horphan, -⟩
  exact hdeclared req hreq horphan

end

/-- One milestone for the delivery, and an inspection asked for without a milestone. -/
def orphanPolicy : ProofPolicy :=
  { deliveryPolicy with
    requiredProofs := [⟨"r1", "delivered", none, ["carrier"], .milestoneRelease, some "m1", none⟩,
      ⟨"r2", "inspected", none, ["carrier"], .release, none, none⟩]
    noResponseRules := []
    milestones := [⟨"m1", none, none⟩] }

theorem split_policy_covered :
    ∃ outcome s' res, PolicyStore.store ⟨∅⟩ splitPolicy false = .ok (outcome, s') ∧ outcome.accepted ∧
      evaluatePolicy saleCrypto saleAgreement splitPolicy [deliveryProof] 7 = .ok res ∧
      (res.outcome = .satisfied → ∀ req ∈ splitPolicy.releaseReqs, reqSatisfiedThreshold req [deliveryProof]
        (satisfiedIds saleCrypto (canonicalHashHex saleCrypto saleAgreement) splitPolicy [deliveryProof])) := by
  obtain ⟨notes, heval⟩ : ∃ notes, evaluatePolicy saleCrypto saleAgreement splitPolicy [deliveryProof] 7 =
      .ok (evaluateMilestones splitPolicy [deliveryProof] ["p1"] 7 notes) :=
    sale_evaluate rfl (List.mem_singleton_self _) 7
  have hvalid : splitPolicy.validate = .ok () := by decide
  have hstore := store_empty hvalid
  obtain ⟨-, hcovered⟩ := stored_policy_covered_iff hstore rfl
  obtain ⟨hiff, hdeclared⟩ := hcovered saleAgreement [deliveryProof] 7 _ heval
  refine ⟨_, _, _, hstore, rfl, heval, hiff.mpr (hdeclared ?_)⟩
  rintro req hreq ⟨-, horphan⟩
  have hnamed : ∀ req ∈ splitPolicy.releaseReqs, ∃ ms ∈ splitPolicy.milestones,
      req.milestoneId = some ms.milestoneId := by decide
  obtain ⟨ms, hms, heq⟩ := hnamed req hreq
  exact horphan ms hms heq

theorem orphan_requirement_ignored :
    ∃ outcome s' res, PolicyStore.store ⟨∅⟩ orphanPolicy false = .ok (outcome, s') ∧ outcome.accepted ∧
      evaluatePolicy saleCrypto saleAgreement orphanPolicy [deliveryProof] 7 = .ok res ∧ res.outcome = .satisfied ∧
      ∃ req ∈ orphanPolicy.releaseReqs, req.resolution = .release ∧ reqSatisfiedThreshold req [deliveryProof]
        (satisfiedIds saleCrypto (canonicalHashHex saleCrypto saleAgreement) orphanPolicy [deliveryProof]) = false := by
  obtain ⟨notes, heval⟩ : ∃ notes, evaluatePolicy saleCrypto saleAgreement orphanPolicy [deliveryProof] 7 =
      .ok (evaluateMilestones orphanPolicy [deliveryProof] ["p1"] 7 notes) :=
    sale_evaluate rfl (List.mem_singleton_self _) 7
  have hvalid : orphanPolicy.validate = .ok () := by decide
  have hstore := store_empty hvalid
  refine ⟨_, _, _, hstore, rfl, heval, rfl, ⟨"r2", "inspected", none, ["carrier"], .release, none, none⟩,
    by decide, rfl, ?_⟩
  rw [saleAgreement_hash, sale_satisfiedIds (List.mem_singleton_self _)]
  rfl

end IriumConsensus
