import IriumConsensus.Settlement.Irrevocable

namespace IriumConsensus

open ByteCodec Checks

section

variable {proofs proofs' : List SettlementProof} {ids ids' : List String}

theorem reqSatisfiedThreshold_congr (hp : ∀ p, p ∈ proofs ↔ p ∈ proofs') (hid : ∀ id, id ∈ ids ↔ id ∈ ids')
    (req : ProofRequirement) : reqSatisfiedThreshold req proofs ids = reqSatisfiedThreshold req proofs' ids' := by
  refine Bool.eq_iff_iff.mpr ⟨reqSatisfiedThreshold_mono fun p h hids hnames => ?_,
    reqSatisfiedThreshold_mono fun p h hids hnames => ?_⟩
  · exact ⟨p, (hp p).mp h, (hid _).mp hids, hnames, rfl⟩
  · exact ⟨p, (hp p).mpr h, (hid _).mpr hids, hnames, rfl⟩

theorem missedDeadline_congr (hp : ∀ p, p ∈ proofs ↔ p ∈ proofs') (hid : ∀ id, id ∈ ids ↔ id ∈ ids')
    (tipHeight : Nat) (reqs : List ProofRequirement) :
    missedDeadline proofs ids tipHeight reqs = missedDeadline proofs' ids' tipHeight reqs := by
  induction reqs with
  | nil => rfl
  | cons req rest ih => rw [missedDeadline, missedDeadline, ih, reqSatisfiedThreshold_congr hp hid]

namespace Clause

variable {c : Clause}

theorem met_congr (hp : ∀ p, p ∈ proofs ↔ p ∈ proofs') (hid : ∀ id, id ∈ ids ↔ id ∈ ids') :
    c.Met proofs ids ↔ c.Met proofs' ids' := by
  have htimely : ∀ id, id ∈ c.timely proofs ids ↔ id ∈ c.timely proofs' ids' := by
    intro id
    simp only [timely, mem_timelyIds, hid, hp]
  simp only [Met, reqSatisfiedThreshold_congr hp htimely]

theorem verdict_congr (hp : ∀ p, p ∈ proofs ↔ p ∈ proofs') (hid : ∀ id, id ∈ ids ↔ id ∈ ids') (tipHeight : Nat) :
    c.verdict proofs ids tipHeight = c.verdict proofs' ids' tipHeight := by
  simp only [verdict, met_congr hp hid, missedDeadline_congr hp hid]

end Clause

end

def PolicyEvaluationResult.report (res : PolicyEvaluationResult) : PolicyOutcome × Bool × Bool :=
  (res.outcome, res.releaseEligible, res.refundEligible)

variable (C : Crypto) (a : AgreementObject) (policy : ProofPolicy)

theorem evaluatePolicy_report (h : eqIgnoreAsciiCase policy.agreementHash (canonicalHashHex C a))
    (proofs : List SettlementProof) (tipHeight : Nat) :
    (evaluatePolicy C a policy proofs tipHeight).map PolicyEvaluationResult.report =
      .ok (policy.verdict proofs (satisfiedIds C (canonicalHashHex C a) policy proofs) tipHeight).report := by
  obtain ⟨res, hok⟩ : ∃ res, evaluatePolicy C a policy proofs tipHeight = .ok res :=
    ⟨_, evaluatePolicy_eq_ok.mpr ⟨h, rfl⟩⟩
  rw [hok, ← evaluatePolicy_verdict hok]
  rfl

/-- The evaluation looks at the proofs as a set, and what satisfies a policy goes on doing so. -/
theorem evaluatePolicy_stable :
    (∀ proofs proofs' tipHeight, (∀ p, p ∈ proofs ↔ p ∈ proofs') →
        (evaluatePolicy C a policy proofs tipHeight).map PolicyEvaluationResult.report =
          (evaluatePolicy C a policy proofs' tipHeight).map PolicyEvaluationResult.report) ∧
      ∀ proofs proofs' tipHeight tipHeight' res, (∀ p ∈ proofs, p ∈ proofs') →
        evaluatePolicy C a policy proofs tipHeight = .ok res → res.outcome = .satisfied →
        ∃ res', evaluatePolicy C a policy proofs' tipHeight' = .ok res' ∧ res'.outcome = .satisfied := by
  constructor
  · intro proofs proofs' tipHeight hsame
    cases hmatch : eqIgnoreAsciiCase policy.agreementHash (canonicalHashHex C a) with
    | false => simp only [evaluatePolicy, hmatch, failIf, Bool.not_false, if_true]; rfl
    | true =>
      have hids : ∀ id, id ∈ satisfiedIds C (canonicalHashHex C a) policy proofs ↔
          id ∈ satisfiedIds C (canonicalHashHex C a) policy proofs' := by
        intro id
        simp only [mem_satisfiedIds, hsame]
      rw [evaluatePolicy_report C a policy hmatch, evaluatePolicy_report C a policy hmatch]
      simp only [ProofPolicy.verdict, Clause.verdict_congr hsame hids]
  · intro proofs proofs' tipHeight tipHeight' res hsub hok hsat
    obtain ⟨hne, hmet⟩ := (evaluatePolicy_satisfied hok).mp hsat
    obtain ⟨res', hok'⟩ : ∃ res', evaluatePolicy C a policy proofs' tipHeight' = .ok res' :=
      ⟨_, evaluatePolicy_eq_ok.mpr ⟨(evaluatePolicy_eq_ok.mp hok).1, rfl⟩⟩
    exact ⟨res', hok', (evaluatePolicy_satisfied hok').mpr ⟨hne, fun c hc => (hmet c hc).grown hsub⟩⟩

end IriumConsensus
