import IriumConsensus.Settlement.Irrevocable

namespace IriumConsensus

open ByteCodec Checks FinMaps

def executableTotal (actions : List SettlementAction) : Nat :=
  ((actions.filter SettlementAction.executable).map fun action => action.amountSat.toNat).sum

section

theorem bpsShare_full (totalSat : UInt64) : bpsShare totalSat 10000 = totalSat := by
  have hten : (10000 : UInt32).toNat = 10000 := rfl
  rw [bpsShare, hten, Nat.mul_div_cancel _ (by decide), UInt64.ofNat_toNat]

theorem bpsShare_zero (totalSat : UInt64) : bpsShare totalSat 0 = 0 := by
  have hzero : (0 : UInt32).toNat = 0 := rfl
  rw [bpsShare, hzero, Nat.mul_zero, Nat.zero_div]
  rfl

theorem bpsShare_le (totalSat : UInt64) {bps : UInt32} (h : bps ≤ 10000) :
    (bpsShare totalSat bps).toNat ≤ totalSat.toNat := by
  have hbps : bps.toNat ≤ 10000 := UInt32.le_iff_toNat_le.mp h
  have hle : totalSat.toNat * bps.toNat / 10000 ≤ totalSat.toNat := by
    refine Nat.div_le_of_le_mul ?_
    rw [Nat.mul_comm]
    exact Nat.mul_le_mul_right _ hbps
  have hlt := totalSat.toNat_lt
  rw [bpsShare, UInt64.toNat_ofNat', Nat.mod_eq_of_lt (by omega)]
  exact hle

end

section

variable {hb : PolicyHoldback} {scope : List ProofRequirement} {proofs : List SettlementProof} {ids : List String}
  {tipHeight : Nat}

/-- The release condition of a holdback: its requirement is met or its deadline has come. -/
def PolicyHoldback.Due (hb : PolicyHoldback) (scope : List ProofRequirement) (proofs : List SettlementProof)
    (ids : List String) (tipHeight : Nat) : Prop :=
  releaseRequirementMet hb scope proofs ids ∨ ∃ deadline ∈ hb.deadlineHeight, deadline ≤ tipHeight

theorem evaluateHoldback_bps (base : Bool) :
    (evaluateHoldback hb base scope proofs ids tipHeight).holdbackBps = hb.holdbackBps := by
  unfold evaluateHoldback
  split
  next => rfl
  next =>
    split
    next => rfl
    next =>
      split
      next => rfl
      next => rfl

theorem evaluateHoldback_due (h : hb.Due scope proofs ids tipHeight) :
    let r := evaluateHoldback hb true scope proofs ids tipHeight
    r.holdbackReleased ∧ r.immediateReleaseBps = 10000 := by
  unfold evaluateHoldback
  by_cases hreq : releaseRequirementMet hb scope proofs ids
  · simp [hreq]
  · obtain ⟨deadline, hmem, hle⟩ := h.resolve_left hreq
    have hany : (hb.deadlineHeight.any fun deadline => deadline ≤ tipHeight) := by
      rw [Option.mem_def.mp hmem]
      simpa using hle
    simp [hreq, hany]

theorem evaluateHoldback_held (h : ¬hb.Due scope proofs ids tipHeight) :
    let r := evaluateHoldback hb true scope proofs ids tipHeight
    r.holdbackReleased = false ∧ r.immediateReleaseBps ≤ 10000 ∧
      (hb.holdbackBps = 0 → r.immediateReleaseBps = 10000) := by
  have hreq : ¬releaseRequirementMet hb scope proofs ids := fun hreq => h (.inl hreq)
  have hany : ¬(hb.deadlineHeight.any fun deadline => deadline ≤ tipHeight) := by
    intro hany
    cases hdeadline : hb.deadlineHeight with
    | none => simp [hdeadline] at hany
    | some deadline => exact h (.inr ⟨deadline, hdeadline, by simpa [hdeadline] using hany⟩)
  intro r
  have hr : r.immediateReleaseBps = if hb.holdbackBps ≤ 10000 then 10000 - hb.holdbackBps else 0 := by
    simp [r, evaluateHoldback, hreq, hany]
  refine ⟨by simp [r, evaluateHoldback, hreq, hany], ?_, fun hzero => ?_⟩
  · rw [hr]
    split
    next hle =>
      rw [UInt32.le_iff_toNat_le] at hle ⊢
      rw [UInt32.toNat_sub_of_le _ _ (UInt32.le_iff_toNat_le.mpr hle)]
      omega
    next => decide
  · rw [hr, hzero]
    decide

end

theorem releaseActions_total (a : AgreementObject) (r : HoldbackEvaluationResult) :
    executableTotal (releaseActions a r) = (bpsShare a.totalAmount r.immediateReleaseBps).toNat +
      if r.holdbackReleased then (bpsShare a.totalAmount r.holdbackBps).toNat else 0 := by
  unfold releaseActions executableTotal
  by_cases hbps : 0 < r.holdbackBps
  · cases hrel : r.holdbackReleased with
    | true => simp [hbps]
    | false => simp [hbps]
  · have hzero : r.holdbackBps = 0 := by simpa [UInt32.pos_iff_ne_zero] using hbps
    simp [hzero, bpsShare_zero]

section

variable {C : Crypto} {a : AgreementObject} {policy : ProofPolicy} {proofs : List SettlementProof} {tipHeight : Nat}
  {res : PolicyEvaluationResult} {node : SettlementNode}

theorem evaluatePolicy_holdback (h : evaluatePolicy C a policy proofs tipHeight = .ok res) :
    let ids := satisfiedIds C (canonicalHashHex C a) policy proofs
    res.holdback = if policy.milestones = [] ∧ policy.wholeClause.Met proofs ids then
      policy.holdback.map fun hb =>
        evaluateHoldback hb true policy.releaseReqs proofs (policy.wholeClause.timely proofs ids) tipHeight
    else none := by
  intro ids
  obtain ⟨-, rfl⟩ := evaluatePolicy_eq_ok.mp h
  by_cases hms : policy.milestones = []
  · rw [if_neg (not_not_intro hms)]
    simpa only [hms, true_and] using evaluateWhole_spec.2
  · rw [if_pos hms, if_neg fun hboth => hms hboth.1]
    rfl

theorem buildSettlementTx_eq_ok {resp : BuildSettlementTxResponse} :
    buildSettlementTx C node a = .ok resp ↔ a.validate = .ok () ∧
      let agreementHash := canonicalHashHex C a
      match node.policyStore.get agreementHash with
      | none => resp = ⟨agreementHash, false, node.tipHeight, false, false, .unsatisfied,
          "no policy stored for this agreement", a.totalAmount, []⟩
      | some policy => ∃ result, evaluatePolicy C a policy (node.activeProofs agreementHash) node.tipHeight = .ok result ∧
          resp = ⟨agreementHash, true, node.tipHeight, result.releaseEligible, result.refundEligible, result.outcome,
            result.reason, a.totalAmount, settlementActions a result⟩ := by
  unfold buildSettlementTx computeAgreementHashHex
  simp only [bind_eq_ok, mapError_eq_ok, exists_unit, pure_eq_ok]
  constructor
  · rintro ⟨agreementHash, ⟨hvalid, rfl⟩, h⟩
    refine ⟨hvalid, ?_⟩
    cases hget : node.policyStore.get (canonicalHashHex C a) with
    | none =>
      rw [hget] at h
      exact (pure_eq_ok.mp h).symm
    | some policy =>
      rw [hget] at h
      simp only [bind_eq_ok, mapError_eq_ok, pure_eq_ok] at h
      obtain ⟨result, hresult, hresp⟩ := h
      exact ⟨result, hresult, hresp.symm⟩
  · rintro ⟨hvalid, h⟩
    refine ⟨_, ⟨hvalid, rfl⟩, ?_⟩
    cases hget : node.policyStore.get (canonicalHashHex C a) with
    | none =>
      rw [hget] at h
      exact pure_eq_ok.mpr h.symm
    | some policy =>
      rw [hget] at h
      obtain ⟨result, hresult, hresp⟩ := h
      simp only [bind_eq_ok, mapError_eq_ok, pure_eq_ok]
      exact ⟨result, hresult, hresp.symm⟩

theorem buildSettlementTx_stored (hvalid : a.validate = .ok ())
    (hget : node.policyStore.get (canonicalHashHex C a) = some policy)
    (heval : evaluatePolicy C a policy (node.activeProofs (canonicalHashHex C a)) node.tipHeight = .ok res) :
    buildSettlementTx C node a = .ok ⟨canonicalHashHex C a, true, node.tipHeight, res.releaseEligible,
      res.refundEligible, res.outcome, res.reason, a.totalAmount, settlementActions a res⟩ := by
  refine buildSettlementTx_eq_ok.mpr ⟨hvalid, ?_⟩
  dsimp only
  rw [hget]
  exact ⟨res, heval, rfl⟩

end

/-- The executable actions never pay more than the total, and pay all of it when the agreement is decided and
nothing is held back. -/
structure Conserves (a : AgreementObject) (releaseEligible refundEligible : Bool) (actions : List SettlementAction) :
    Prop where
  bounded : executableTotal actions ≤ a.totalAmount.toNat
  exact : (releaseEligible ∨ refundEligible) → (∀ action ∈ actions, action.executable) →
    executableTotal actions = a.totalAmount.toNat

/-- The holdback is released together with the rest, and is worth something. -/
def HoldbackReleased (a : AgreementObject) (policy : ProofPolicy) (proofs : List SettlementProof) (ids : List String)
    (tipHeight : Nat) : Prop :=
  policy.milestones = [] ∧ policy.wholeClause.Met proofs ids ∧ ∃ hb ∈ policy.holdback,
    hb.Due policy.releaseReqs proofs (policy.wholeClause.timely proofs ids) tipHeight ∧
      bpsShare a.totalAmount hb.holdbackBps ≠ 0

section

variable {C : Crypto} {a : AgreementObject} {policy : ProofPolicy} {proofs : List SettlementProof} {tipHeight : Nat}
  {res : PolicyEvaluationResult}

theorem conserves_without_holdback (hnone : res.holdback = none) :
    Conserves a res.releaseEligible res.refundEligible (settlementActions a res) := by
  unfold settlementActions
  cases hrel : res.releaseEligible with
  | true =>
    rw [hnone]
    exact ⟨by simp [executableTotal], fun _ _ => by simp [executableTotal]⟩
  | false =>
    cases href : res.refundEligible with
    | true => exact ⟨by simp [executableTotal], fun _ _ => by simp [executableTotal]⟩
    | false => exact ⟨by simp [executableTotal], fun h => absurd h (by simp)⟩

theorem conserves_with_holdback {hb : PolicyHoldback} {scope : List ProofRequirement} {ids : List String}
    (hrel : res.releaseEligible)
    (hhb : res.holdback = some (evaluateHoldback hb true scope proofs ids tipHeight)) :
    Conserves a res.releaseEligible res.refundEligible (settlementActions a res) ↔
      ¬(hb.Due scope proofs ids tipHeight ∧ bpsShare a.totalAmount hb.holdbackBps ≠ 0) := by
  obtain ⟨r, hr⟩ : ∃ r, r = evaluateHoldback hb true scope proofs ids tipHeight := ⟨_, rfl⟩
  have hactions : settlementActions a res = releaseActions a r := by
    rw [settlementActions, if_pos hrel, hhb, hr]
  have hbps : r.holdbackBps = hb.holdbackBps := hr ▸ evaluateHoldback_bps true
  have htotal := releaseActions_total a r
  rw [hactions]
  by_cases hdue : hb.Due scope proofs ids tipHeight
  · obtain ⟨hreleased, himmediate⟩ := evaluateHoldback_due hdue
    rw [← hr] at hreleased himmediate
    rw [himmediate, hreleased, if_pos rfl, hbps, bpsShare_full] at htotal
    constructor
    · rintro ⟨hle, -⟩ ⟨-, hne⟩
      rw [htotal] at hle
      exact hne (UInt64.toNat_inj.mp (by rw [UInt64.toNat_zero]; omega))
    · intro hnot
      have hzero : bpsShare a.totalAmount hb.holdbackBps = 0 := by
        by_contra hne
        exact hnot ⟨hdue, hne⟩
      rw [hzero, UInt64.toNat_zero, Nat.add_zero] at htotal
      exact ⟨htotal.le, fun _ _ => htotal⟩
  · obtain ⟨hheld, hle, hfull⟩ := evaluateHoldback_held hdue
    rw [← hr] at hheld hle hfull
    rw [hheld, if_neg Bool.false_ne_true, Nat.add_zero] at htotal
    refine ⟨fun _ hboth => hdue hboth.1, fun _ => ⟨htotal ▸ bpsShare_le a.totalAmount hle, fun _ hall => ?_⟩⟩
    -- an action for the held part would not be executable
    have hzero : hb.holdbackBps = 0 := by
      by_contra hne
      have hpos : 0 < r.holdbackBps := by
        rw [hbps]
        exact UInt32.pos_iff_ne_zero.mpr hne
      have hexec := hall _ (by
        rw [releaseActions, if_pos hpos]
        exact List.mem_cons_of_mem _ (List.mem_singleton_self _))
      exact absurd (hexec.symm.trans hheld) (by simp)
    rw [htotal, hfull hzero, bpsShare_full]

/-- Payouts conserve value exactly when no holdback is paid out on top of the full release. -/
theorem payouts_conserved_iff {node : SettlementNode} {resp : BuildSettlementTxResponse}
    (h : buildSettlementTx C node a = .ok resp) :
    Conserves a resp.releaseEligible resp.refundEligible resp.actions ↔
      ∀ policy ∈ node.policyStore.get (canonicalHashHex C a),
        ¬HoldbackReleased a policy (node.activeProofs (canonicalHashHex C a))
          (satisfiedIds C (canonicalHashHex C a) policy (node.activeProofs (canonicalHashHex C a))) node.tipHeight := by
  obtain ⟨-, hresp⟩ := buildSettlementTx_eq_ok.mp h
  dsimp only at hresp
  cases hget : node.policyStore.get (canonicalHashHex C a) with
  | none =>
    rw [hget] at hresp
    rw [hresp]
    exact ⟨fun _ policy hp => absurd hp (by simp),
      fun _ => ⟨by simp [executableTotal], fun hflags => absurd hflags (by simp)⟩⟩
  | some policy =>
    rw [hget] at hresp
    obtain ⟨result, heval, rfl⟩ := hresp
    have hholdback := evaluatePolicy_holdback heval
    dsimp only at hholdback
    simp only [Option.mem_some_iff, forall_eq']
    by_cases hmet : policy.milestones = [] ∧ policy.wholeClause.Met (node.activeProofs (canonicalHashHex C a))
        (satisfiedIds C (canonicalHashHex C a) policy (node.activeProofs (canonicalHashHex C a)))
    · cases hhb : policy.holdback with
      | none =>
        rw [hhb, Option.map_none, ite_self] at hholdback
        refine iff_of_true (conserves_without_holdback hholdback) ?_
        rintro ⟨-, -, hb, hmem, -⟩
        exact absurd (hhb.symm.trans hmem) (by simp)
      | some hb =>
        have hrel : result.releaseEligible := by
          refine evaluatePolicy_released heval ((evaluatePolicy_satisfied heval).mpr ?_)
          rw [ProofPolicy.clauses_whole hmet.1]
          exact ⟨List.cons_ne_nil _ _, List.forall_mem_singleton.mpr hmet.2⟩
        rw [if_pos hmet, hhb, Option.map_some] at hholdback
        rw [conserves_with_holdback hrel hholdback]
        refine not_congr ⟨fun hdue => ⟨hmet.1, hmet.2, hb, hhb, hdue⟩, ?_⟩
        rintro ⟨-, -, hb', hmem, hdue⟩
        obtain rfl : hb = hb' := Option.some.inj (hhb.symm.trans hmem)
        exact hdue
    · rw [if_neg hmet] at hholdback
      exact iff_of_true (conserves_without_holdback hholdback) fun hboth => hmet ⟨hboth.1, hboth.2.1⟩

end

section

def saleNode (policy : ProofPolicy) (tipHeight : Nat) : SettlementNode :=
  ⟨tipHeight, ⟨(∅ : FinMap String ProofPolicy).insert (asciiLower policy.agreementHash) policy⟩, [deliveryProof]⟩

theorem saleAgreement_valid : saleAgreement.validate = .ok () := by decide

variable {policy : ProofPolicy}

theorem saleNode_policy (hhash : policy.agreementHash = encodeHex saleHash.bytes) (tipHeight : Nat) :
    (saleNode policy tipHeight).policyStore.get (canonicalHashHex saleCrypto saleAgreement) = some policy := by
  rw [saleAgreement_hash, ← hhash]
  exact Finmap.lookup_insert _

theorem saleNode_activeProofs (policy : ProofPolicy) (tipHeight : Nat) :
    (saleNode policy tipHeight).activeProofs (canonicalHashHex saleCrypto saleAgreement) = [deliveryProof] := by
  have hfilter : [deliveryProof].filter (fun p => asciiLower p.agreementHash ==
      asciiLower (encodeHex saleHash.bytes)) = [deliveryProof] :=
    List.filter_cons_of_pos (beq_self_eq_true _)
  rw [saleAgreement_hash, SettlementNode.activeProofs, SettlementNode.listByAgreement, saleNode, hfilter]
  rfl

theorem sale_build (hhash : policy.agreementHash = encodeHex saleHash.bytes) (h : carrier ∈ policy.attestors)
    (tipHeight : Nat) :
    ∃ notes resp, buildSettlementTx saleCrypto (saleNode policy tipHeight) saleAgreement = .ok resp ∧
      resp.actions = settlementActions saleAgreement
        (if policy.milestones ≠ [] then evaluateMilestones policy [deliveryProof] ["p1"] tipHeight notes
          else evaluateWhole policy [deliveryProof] ["p1"] tipHeight notes) := by
  obtain ⟨notes, heval⟩ := sale_evaluate hhash h tipHeight
  refine ⟨notes, _, buildSettlementTx_stored saleAgreement_valid (saleNode_policy hhash tipHeight) ?_, rfl⟩
  rw [saleNode_activeProofs]
  exact heval

def retainedPolicy (deadline : Nat) : ProofPolicy :=
  { deliveryPolicy with
    holdback := some ⟨1000, none, some deadline⟩ }

theorem retained_tenth_conserved :
    ∃ resp, buildSettlementTx saleCrypto (saleNode (retainedPolicy 100) 9) saleAgreement = .ok resp ∧
      Conserves saleAgreement resp.releaseEligible resp.refundEligible resp.actions := by
  have hcarrier : carrier ∈ (retainedPolicy 100).attestors := List.mem_singleton_self _
  obtain ⟨notes, resp, hresp, -⟩ := sale_build rfl hcarrier 9
  refine ⟨resp, hresp, (payouts_conserved_iff hresp).mpr fun policy hp => ?_⟩
  obtain rfl : retainedPolicy 100 = policy := Option.some.inj ((saleNode_policy rfl 9).symm.trans hp)
  rintro ⟨-, -, hb, ⟨⟩, hreq | ⟨deadline, ⟨⟩, hle⟩, -⟩
  · exact absurd hreq (by simp [releaseRequirementMet])
  · exact absurd hle (by decide)

theorem holdback_paid_twice :
    ∃ resp, buildSettlementTx saleCrypto (saleNode (retainedPolicy 8) 9) saleAgreement = .ok resp ∧
      executableTotal resp.actions = 110000 ∧ saleAgreement.totalAmount = 100000 := by
  have hcarrier : carrier ∈ (retainedPolicy 8).attestors := List.mem_singleton_self _
  obtain ⟨notes, resp, hresp, hactions⟩ := sale_build rfl hcarrier 9
  refine ⟨resp, hresp, ?_, rfl⟩
  rw [hactions]
  rfl

end

end IriumConsensus
