import IriumConsensus.Settlement.Milestones

namespace IriumConsensus

structure EvaluatePolicyResponse where
  outcome : PolicyOutcome
  agreementHash : String
  policyFound : Bool
  policyId : Option String
  tipHeight : Nat
  proofCount : Nat
  expiredProofCount : Nat
  matchedProofCount : Nat
  matchedProofIds : List String
  expired : Bool
  releaseEligible : Bool
  refundEligible : Bool
  reason : String
  evaluatedRules : List String
  milestoneResults : List MilestoneEvaluationResult
  completedMilestoneCount : Nat
  totalMilestoneCount : Nat
  holdback : Option HoldbackEvaluationResult
  thresholdResults : List RequirementThresholdResult
  deriving DecidableEq, Repr

/-- The notes on stored proofs that have expired. -/
def SettlementNode.expiryRules (node : SettlementNode) (agreementHash : String) : List String :=
  (node.listByAgreement agreementHash).filterMap fun p => do
    let h ← p.expiresAtHeight
    if h ≤ node.tipHeight then
      some ("proof '" ++ p.proofId ++ "' skipped: expired at height " ++ toString h ++ " (tip " ++
        toString node.tipHeight ++ ")")
    else none

def ProofPolicy.expiredAt (policy : ProofPolicy) (tipHeight : Nat) : Option Nat :=
  policy.expiresAtHeight.filter fun expires => expires ≤ tipHeight

variable (C : Crypto)

def evaluatePolicyRpc (node : SettlementNode) (a : AgreementObject) : Except String EvaluatePolicyResponse := do
  let agreementHash ← (computeAgreementHashHex C a).mapError fun e => "agreement_hash_failed:" ++ e
  match node.policyStore.get agreementHash with
  | none =>
    return ⟨.unsatisfied, agreementHash, false, none, node.tipHeight, 0, 0, 0, [], false, false, false,
      "no policy stored for this agreement", [], [], 0, 0, none, []⟩
  | some policy =>
    let activeProofs := node.activeProofs agreementHash
    let expiryRules := node.expiryRules agreementHash
    match policy.expiredAt node.tipHeight with
    | some expires =>
      return ⟨.unsatisfied, agreementHash, true, some policy.policyId, node.tipHeight, activeProofs.length,
        expiryRules.length, 0, [], true, false, false, "policy expired at height " ++ toString expires, expiryRules,
        [], 0, 0, none, []⟩
    | none =>
      let result ← (evaluatePolicy C a policy activeProofs node.tipHeight).mapError
        fun e => "policy_eval_failed:" ++ e
      return ⟨result.outcome, agreementHash, true, some policy.policyId, node.tipHeight, activeProofs.length,
        expiryRules.length, result.matchedProofIds.length, result.matchedProofIds, false, result.releaseEligible,
        result.refundEligible, result.reason, expiryRules ++ result.evaluatedRules, result.milestoneResults,
        result.completedMilestoneCount, result.totalMilestoneCount, result.holdback, result.thresholdResults⟩

/-- Each executable action is one that the evaluation reports as eligible. -/
def Backs (resp : EvaluatePolicyResponse) (actions : List SettlementAction) : Prop :=
  ∀ act ∈ actions, act.executable →
    (act.action = "release" → resp.releaseEligible) ∧ (act.action = "refund" → resp.refundEligible)

/-- The policy of the agreement has expired, and its evaluation still pays one of the parties. -/
def PaysExpired (node : SettlementNode) (a : AgreementObject) : Prop :=
  ∃ policy res, a.validate = .ok () ∧ node.policyStore.get (canonicalHashHex C a) = some policy ∧
    (∃ expires ∈ policy.expiresAtHeight, expires ≤ node.tipHeight) ∧
    evaluatePolicy C a policy (node.activeProofs (canonicalHashHex C a)) node.tipHeight = .ok res ∧
    (res.releaseEligible ∨ res.refundEligible)

variable {C} {a : AgreementObject} {res : PolicyEvaluationResult} {node : SettlementNode} {policy : ProofPolicy}

theorem settlementActions_eligible {act : SettlementAction} (h : act ∈ settlementActions a res) :
    (act.action = "release" → res.releaseEligible) ∧ (act.action = "refund" → res.refundEligible) := by
  cases hrel : res.releaseEligible with
  | true =>
    have hrelease := settlementActions_release hrel act h
    exact ⟨fun _ => rfl, fun href => absurd (hrelease.symm.trans href) (by decide)⟩
  | false =>
    rw [settlementActions, hrel, if_neg Bool.false_ne_true] at h
    cases href : res.refundEligible with
    | true =>
      rw [href, if_pos rfl, List.mem_singleton] at h
      exact ⟨fun hrelease => absurd hrelease (by simp [h]), fun _ => rfl⟩
    | false =>
      rw [href, if_neg Bool.false_ne_true] at h
      cases h

theorem exists_executable (h : res.releaseEligible ∨ res.refundEligible) :
    ∃ act ∈ settlementActions a res, act.executable ∧ (act.action = "release" ∨ act.action = "refund") := by
  cases hrel : res.releaseEligible with
  | true =>
    rw [settlementActions, if_pos hrel]
    cases res.holdback with
    | none => exact ⟨_, List.mem_singleton_self _, rfl, .inl rfl⟩
    | some hb => exact ⟨_, List.mem_cons_self, rfl, .inl rfl⟩
  | false =>
    have href : res.refundEligible := h.resolve_left (by simp [hrel])
    rw [settlementActions, hrel, if_neg Bool.false_ne_true, if_pos href]
    exact ⟨_, List.mem_singleton_self _, rfl, .inr rfl⟩

theorem expiredAt_isSome {tipHeight : Nat} :
    (policy.expiredAt tipHeight).isSome ↔ ∃ expires ∈ policy.expiresAtHeight, expires ≤ tipHeight := by
  unfold ProofPolicy.expiredAt
  cases policy.expiresAtHeight with
  | none => simp
  | some expires => simp [Option.filter_some]

theorem computeAgreementHashHex_valid (hvalid : a.validate = .ok ()) :
    computeAgreementHashHex C a = .ok (canonicalHashHex C a) := by
  rw [computeAgreementHashHex, hvalid]
  rfl

theorem evaluatePolicyRpc_missing (hvalid : a.validate = .ok ())
    (hget : node.policyStore.get (canonicalHashHex C a) = none) : ∃ resp, evaluatePolicyRpc C node a = .ok resp := by
  unfold evaluatePolicyRpc
  simp only [computeAgreementHashHex_valid hvalid, Except.mapError, bind, Except.bind, hget]
  exact ⟨_, rfl⟩

theorem evaluatePolicyRpc_stored (hvalid : a.validate = .ok ())
    (hget : node.policyStore.get (canonicalHashHex C a) = some policy)
    (heval : evaluatePolicy C a policy (node.activeProofs (canonicalHashHex C a)) node.tipHeight = .ok res) :
    ∃ resp, evaluatePolicyRpc C node a = .ok resp ∧
      resp.releaseEligible = (res.releaseEligible && !(policy.expiredAt node.tipHeight).isSome) ∧
      resp.refundEligible = (res.refundEligible && !(policy.expiredAt node.tipHeight).isSome) := by
  unfold evaluatePolicyRpc
  rw [computeAgreementHashHex_valid hvalid]
  cases hexp : policy.expiredAt node.tipHeight with
  | some expires =>
    simp only [Except.mapError, bind, Except.bind, hget, hexp]
    exact ⟨_, rfl, by simp, by simp⟩
  | none =>
    simp only [Except.mapError, bind, Except.bind, hget, hexp, heval]
    exact ⟨_, rfl, by simp, by simp⟩

/-- The two endpoints agree exactly if no expired policy still pays. -/
theorem settlement_endpoints_agree_iff (node : SettlementNode) (a : AgreementObject) :
    (∀ built, buildSettlementTx C node a = .ok built →
        ∃ resp, evaluatePolicyRpc C node a = .ok resp ∧ Backs resp built.actions) ↔ ¬PaysExpired C node a := by
  constructor
  · rintro h ⟨policy, res, hvalid, hget, hexpired, heval, hpays⟩
    obtain ⟨act, hact, hexec, hname⟩ := exists_executable (a := a) hpays
    obtain ⟨resp, hresp, hrel, href⟩ := evaluatePolicyRpc_stored hvalid hget heval
    obtain ⟨resp', hresp', hbacks⟩ := h _ (buildSettlementTx_stored hvalid hget heval)
    obtain rfl : resp' = resp := Except.ok.inj (hresp'.symm.trans hresp)
    simp only [expiredAt_isSome.mpr hexpired, Bool.not_true, Bool.and_false] at hrel href
    obtain ⟨hrelease, hrefund⟩ := hbacks act hact hexec
    rcases hname with hname | hname
    · exact absurd (hrelease hname) (by simp [hrel])
    · exact absurd (hrefund hname) (by simp [href])
  · intro h built hbuilt
    obtain ⟨hvalid, hbuilt⟩ := buildSettlementTx_eq_ok.mp hbuilt
    cases hget : node.policyStore.get (canonicalHashHex C a) with
    | none =>
      simp only [hget] at hbuilt
      subst hbuilt
      obtain ⟨resp, hresp⟩ := evaluatePolicyRpc_missing hvalid hget
      exact ⟨resp, hresp, List.forall_mem_nil _⟩
    | some policy =>
      simp only [hget] at hbuilt
      obtain ⟨res, heval, rfl⟩ := hbuilt
      obtain ⟨resp, hresp, hrel, href⟩ := evaluatePolicyRpc_stored hvalid hget heval
      refine ⟨resp, hresp, fun act hact _ => ?_⟩
      obtain ⟨hrelease, hrefund⟩ := settlementActions_eligible hact
      cases hexp : (policy.expiredAt node.tipHeight).isSome with
      | false => simpa only [hrel, href, hexp, Bool.not_false, Bool.and_true] using ⟨hrelease, hrefund⟩
      | true =>
        have hnone : ¬(res.releaseEligible ∨ res.refundEligible) := fun hpays =>
          h ⟨policy, res, hvalid, hget, expiredAt_isSome.mp hexp, heval, hpays⟩
        exact ⟨fun hname => absurd (.inl (hrelease hname)) hnone, fun hname => absurd (.inr (hrefund hname)) hnone⟩

def expiringPolicy : ProofPolicy := { deliveryPolicy with expiresAtHeight := some 6 }

/-- After its expiry the policy is reported as inactive, and the settlement transaction pays the seller in full. -/
theorem expired_policy_pays :
    ∃ built resp, buildSettlementTx saleCrypto (saleNode expiringPolicy 7) saleAgreement = .ok built ∧
      built.actions = [⟨"release", "payee", "Qseller", 10000, 100000, true, none, none⟩] ∧
      evaluatePolicyRpc saleCrypto (saleNode expiringPolicy 7) saleAgreement = .ok resp ∧
      resp.releaseEligible = false := by
  obtain ⟨notes, heval⟩ : ∃ notes, evaluatePolicy saleCrypto saleAgreement expiringPolicy
      ((saleNode expiringPolicy 7).activeProofs (canonicalHashHex saleCrypto saleAgreement)) 7 =
        .ok (evaluateWhole expiringPolicy [deliveryProof] ["p1"] 7 notes) := by
    rw [saleNode_activeProofs]
    exact sale_evaluate rfl (List.mem_singleton_self _) 7
  obtain ⟨resp, hresp, hrel, -⟩ := evaluatePolicyRpc_stored saleAgreement_valid (saleNode_policy rfl 7) heval
  refine ⟨_, resp, buildSettlementTx_stored saleAgreement_valid (saleNode_policy rfl 7) heval, ?_, hresp, ?_⟩
  · rfl
  · rw [hrel]
    rfl

end IriumConsensus
