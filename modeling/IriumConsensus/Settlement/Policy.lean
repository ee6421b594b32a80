import IriumConsensus.Settlement.Agreement

namespace IriumConsensus

open ByteCodec Checks

inductive ProofResolution where
  | release
  | refund
  | milestoneRelease
  deriving DecidableEq, Repr

/-- `Release` or `MilestoneRelease`. -/
def ProofResolution.releases : ProofResolution → Bool
  | release | milestoneRelease => true
  | refund => false

inductive NoResponseTrigger where
  | fundedAndNoRelease
  | disputedAndNoResponse
  deriving DecidableEq, Repr

def NoResponseTrigger.label : NoResponseTrigger → String
  | fundedAndNoRelease => "funded_and_no_release"
  | disputedAndNoResponse => "disputed_and_no_response"

structure NoResponseRule where
  ruleId : String
  deadlineHeight : Nat
  trigger : NoResponseTrigger := .fundedAndNoRelease
  resolution : ProofResolution
  milestoneId : Option String := none
  deriving DecidableEq, Repr

structure ApprovedAttestor where
  attestorId : String
  pubkeyHex : String
  deriving DecidableEq, Repr

structure ProofRequirement where
  requirementId : String
  proofType : String
  requiredBy : Option Nat := none
  requiredAttestorIds : List String
  resolution : ProofResolution
  milestoneId : Option String := none
  threshold : Option Nat := none
  deriving DecidableEq, Repr

structure PolicyHoldback where
  holdbackBps : UInt32
  releaseRequirementId : Option String := none
  deadlineHeight : Option Nat := none
  deriving DecidableEq, Repr

structure PolicyMilestone where
  milestoneId : String
  label : Option String := none
  holdback : Option PolicyHoldback := none
  deriving DecidableEq, Repr

structure ProofPolicy where
  policyId : String
  agreementHash : String
  requiredProofs : List ProofRequirement
  noResponseRules : List NoResponseRule := []
  attestors : List ApprovedAttestor
  expiresAtHeight : Option Nat := none
  milestones : List PolicyMilestone := []
  holdback : Option PolicyHoldback := none
  deriving DecidableEq, Repr

structure ProofSignatureEnvelope where
  signatureType : String := "secp256k1_ecdsa_sha256"
  pubkeyHex : String
  signatureHex : String
  deriving DecidableEq, Repr

structure SettlementProof where
  proofId : String
  schemaId : String := "irium.phase2.settlement_proof.v1"
  proofType : String
  agreementHash : String
  milestoneId : Option String := none
  attestedBy : String
  attestationTime : Nat
  evidenceHash : Option String := none
  evidenceSummary : Option String := none
  signature : ProofSignatureEnvelope
  expiresAtHeight : Option Nat := none
  deriving DecidableEq, Repr

structure RequirementThresholdResult where
  requirementId : String
  thresholdRequired : Nat
  approvedAttestorCount : Nat
  matchedAttestorIds : List String
  thresholdSatisfied : Bool
  deriving DecidableEq, Repr

inductive HoldbackOutcome where
  | pending
  | held
  | released
  deriving DecidableEq, Repr

structure HoldbackEvaluationResult where
  holdbackPresent : Bool
  holdbackReleased : Bool
  holdbackBps : UInt32
  immediateReleaseBps : UInt32
  holdbackOutcome : HoldbackOutcome
  holdbackReason : String
  deadlineHeight : Option Nat
  deriving DecidableEq, Repr

inductive PolicyOutcome where
  | satisfied
  | timeout
  | unsatisfied
  deriving DecidableEq, Repr

def PolicyOutcome.debug : PolicyOutcome → String
  | satisfied => "Satisfied"
  | timeout => "Timeout"
  | unsatisfied => "Unsatisfied"

structure MilestoneEvaluationResult where
  milestoneId : String
  label : Option String
  outcome : PolicyOutcome
  releaseEligible : Bool
  refundEligible : Bool
  matchedProofIds : List String
  reason : String
  holdback : Option HoldbackEvaluationResult
  thresholdResults : List RequirementThresholdResult
  deriving DecidableEq, Repr

structure PolicyEvaluationResult where
  outcome : PolicyOutcome
  releaseEligible : Bool
  refundEligible : Bool
  reason : String
  evaluatedRules : List String
  matchedProofIds : List String
  milestoneResults : List MilestoneEvaluationResult
  completedMilestoneCount : Nat
  totalMilestoneCount : Nat
  holdback : Option HoldbackEvaluationResult
  thresholdResults : List RequirementThresholdResult
  deriving DecidableEq, Repr

def settlementProofPayloadBytes (proof : SettlementProof) : Bytes :=
  Json.canonicalBytes (.obj [("proof_id", .str proof.proofId), ("schema_id", .str proof.schemaId),
    ("proof_type", .str proof.proofType), ("agreement_hash", .str proof.agreementHash),
    ("milestone_id", Json.optStr proof.milestoneId), ("attested_by", .str proof.attestedBy),
    ("attestation_time", Json.nat proof.attestationTime), ("evidence_hash", Json.optStr proof.evidenceHash),
    ("evidence_summary", Json.optStr proof.evidenceSummary)])

section

variable (C : Crypto)

def verifyProofSignature (proof : SettlementProof) : Except String Unit := do
  let digest := C.sha256 (settlementProofPayloadBytes proof)
  let pubkeyBytes ← orFail (decodeHex proof.signature.pubkeyHex) "pubkey_hex must be hex-encoded SEC1 bytes"
  failIf (!C.keyFromSec1 pubkeyBytes) "pubkey_hex must be a valid secp256k1 SEC1 public key"
  let sigBytes ← orFail (decodeHex proof.signature.signatureHex) "signature_hex must be 64-byte hex"
  let parsed ← orFail (if h : sigBytes.length = 64 then some (⟨sigBytes, h⟩ : Sig64) else none)
    "signature_hex must be valid compact secp256k1 bytes"
  failIf (!C.sigFromSlice parsed) "signature_hex must be valid compact secp256k1 bytes"
  failIf (!C.verifyPrehash pubkeyBytes digest parsed) "proof signature verification failed"

def verifySettlementProof (proof : SettlementProof) (policy : ProofPolicy) : Except String Unit := do
  failIf (proof.signature.signatureType ≠ "secp256k1_ecdsa_sha256")
    ("unsupported signature type: " ++ proof.signature.signatureType)
  failIf (∀ a ∈ policy.attestors, ¬(a.attestorId = proof.attestedBy ∧ a.pubkeyHex = proof.signature.pubkeyHex))
    ("attestor '" ++ proof.attestedBy ++ "' is not approved in this policy")
  verifyProofSignature C proof

def checkProof (agreementHash : String) (policy : ProofPolicy) (proof : SettlementProof) : Except String Unit := do
  failIf (!eqIgnoreAsciiCase proof.agreementHash agreementHash)
    ("agreement_hash mismatch (proof=" ++ proof.agreementHash ++ ", expected=" ++ agreementHash ++ ")")
  verifySettlementProof C proof policy

def proofRule (agreementHash : String) (policy : ProofPolicy) (proof : SettlementProof) : String :=
  match checkProof C agreementHash policy proof with
  | .ok _ => "proof '" ++ proof.proofId ++ "' verified ok"
  | .error e => "proof '" ++ proof.proofId ++ "' rejected: " ++ e

def satisfiedIds (agreementHash : String) (policy : ProofPolicy) (proofs : List SettlementProof) : List String :=
  (proofs.filter fun proof => (checkProof C agreementHash policy proof).isOk).map SettlementProof.proofId

def proofFits (req : ProofRequirement) (satisfied : List String) (p : SettlementProof) : Bool :=
  satisfied.contains p.proofId && p.proofType == req.proofType && req.requiredAttestorIds.contains p.attestedBy &&
    (p.milestoneId.isNone || req.milestoneId.isNone || req.milestoneId == p.milestoneId)

/-- Enough distinct attestors, counted until the threshold is reached. -/
def reachesThreshold (threshold : Nat) (fits : SettlementProof → Bool) : List String → List SettlementProof → Bool
  | _, [] => false
  | seen, p :: rest =>
    if fits p then
      if threshold ≤ (seen.insert p.attestedBy).length then true
      else reachesThreshold threshold fits (seen.insert p.attestedBy) rest
    else reachesThreshold threshold fits seen rest

def reqSatisfiedThreshold (req : ProofRequirement) (proofs : List SettlementProof) (satisfied : List String) : Bool :=
  let threshold := max (req.threshold.getD 1) 1
  if threshold = 1 then proofs.any (proofFits req satisfied)
  else reachesThreshold threshold (proofFits req satisfied) [] proofs

def fittingAttestors (fits : SettlementProof → Bool) : List String → List SettlementProof → List String
  | ids, [] => ids
  | ids, p :: rest =>
    fittingAttestors fits (if fits p && !ids.contains p.attestedBy then ids ++ [p.attestedBy] else ids) rest

def buildThresholdResult (req : ProofRequirement) (proofs : List SettlementProof) (satisfied : List String) :
    Option RequirementThresholdResult :=
  req.threshold.map fun t =>
    let threshold := max t 1
    let attestorIds := fittingAttestors (proofFits req satisfied) [] proofs
    ⟨req.requirementId, threshold, attestorIds.length, attestorIds, threshold ≤ attestorIds.length⟩

def refundCutoff (rules : List NoResponseRule) : Option Nat :=
  ((rules.filter fun r => r.resolution == .refund).map NoResponseRule.deadlineHeight).min?

def timelyIds (cutoff : Option Nat) (proofs : List SettlementProof) (satisfied : List String) : List String :=
  match cutoff with
  | none => satisfied
  | some cutoff =>
    satisfied.filter fun id => proofs.any fun p => p.proofId == id && p.attestationTime ≤ cutoff

def allReleaseMet (releaseReqs : List ProofRequirement) (proofs : List SettlementProof) (timely : List String) : Bool :=
  !releaseReqs.isEmpty && releaseReqs.all fun req => reqSatisfiedThreshold req proofs timely

def thresholdResults (reqs : List ProofRequirement) (proofs : List SettlementProof) (satisfied : List String) :
    List RequirementThresholdResult :=
  reqs.filterMap fun r => buildThresholdResult r proofs satisfied

def firedRule (rules : List NoResponseRule) (tipHeight : Nat) : Option NoResponseRule :=
  rules.find? fun rule => rule.deadlineHeight ≤ tipHeight

def ruleLabel (rule : NoResponseRule) (tipHeight : Nat) : String :=
  "no_response_rule '" ++ rule.ruleId ++ "' deadline " ++ toString rule.deadlineHeight ++ " reached at tip " ++
    toString tipHeight ++ " trigger " ++ rule.trigger.label

def missedLabel (req : ProofRequirement) (deadline tipHeight : Nat) : String :=
  "requirement '" ++ req.requirementId ++ "' refund deadline " ++ toString deadline ++ " reached at tip " ++
    toString tipHeight ++ " with no satisfying proof"

def missedDeadline (proofs : List SettlementProof) (satisfied : List String) (tipHeight : Nat) :
    List ProofRequirement → Option (ProofRequirement × Nat)
  | [] => none
  | req :: rest =>
    match req.requiredBy with
    | some deadline =>
      if deadline ≤ tipHeight && !reqSatisfiedThreshold req proofs satisfied then some (req, deadline)
      else missedDeadline proofs satisfied tipHeight rest
    | none => missedDeadline proofs satisfied tipHeight rest

/-- What the evaluation of one milestone's requirements and rules returns. -/
structure SubsetResult where
  outcome : PolicyOutcome
  releaseEligible : Bool
  refundEligible : Bool
  reason : String
  matched : List String
  thresholds : List RequirementThresholdResult
  deriving DecidableEq, Repr

def evalMilestoneSubset (releaseReqs refundReqs : List ProofRequirement) (rules : List NoResponseRule)
    (proofs : List SettlementProof) (satisfied : List String) (tipHeight : Nat) : SubsetResult :=
  let timely := timelyIds (refundCutoff rules) proofs satisfied
  let thr := thresholdResults (releaseReqs ++ refundReqs) proofs satisfied
  if allReleaseMet releaseReqs proofs timely then
    { outcome := .satisfied
      releaseEligible := true
      refundEligible := false
      reason := "all release requirements satisfied by verified proofs"
      matched := (proofs.filter fun p => timely.contains p.proofId && releaseReqs.any fun r =>
        p.proofType == r.proofType && r.requiredAttestorIds.contains p.attestedBy).map SettlementProof.proofId
      thresholds := thresholdResults (releaseReqs ++ refundReqs) proofs timely }
  else
    match firedRule rules tipHeight with
    | some rule =>
      { outcome := .timeout
        releaseEligible := rule.resolution.releases
        refundEligible := !rule.resolution.releases
        reason := ruleLabel rule tipHeight
        matched := []
        thresholds := thr }
    | none =>
      match missedDeadline proofs satisfied tipHeight refundReqs with
      | some (req, deadline) => ⟨.timeout, false, true, missedLabel req deadline tipHeight, [], thr⟩
      | none => ⟨.unsatisfied, false, false, "no release or refund condition was met", [], thr⟩

def releaseRequirementMet (holdback : PolicyHoldback) (scopeReqs : List ProofRequirement)
    (proofs : List SettlementProof) (satisfied : List String) : Bool :=
  holdback.releaseRequirementId.any fun reqId =>
    scopeReqs.any fun req => req.requirementId == reqId && reqSatisfiedThreshold req proofs satisfied

def evaluateHoldback (holdback : PolicyHoldback) (baseSatisfied : Bool) (scopeReqs : List ProofRequirement)
    (proofs : List SettlementProof) (satisfied : List String) (tipHeight : Nat) : HoldbackEvaluationResult :=
  if !baseSatisfied then
    ⟨true, false, holdback.holdbackBps, 0, .pending, "base condition not yet satisfied", holdback.deadlineHeight⟩
  else if releaseRequirementMet holdback scopeReqs proofs satisfied then
    ⟨true, true, holdback.holdbackBps, 10000, .released,
      "holdback released by requirement '" ++ holdback.releaseRequirementId.getD "" ++ "'", holdback.deadlineHeight⟩
  else if holdback.deadlineHeight.any fun deadline => deadline ≤ tipHeight then
    ⟨true, true, holdback.holdbackBps, 10000, .released,
      "holdback released by deadline at height " ++ toString (holdback.deadlineHeight.getD 0), holdback.deadlineHeight⟩
  else
    ⟨true, false, holdback.holdbackBps, if holdback.holdbackBps ≤ 10000 then 10000 - holdback.holdbackBps else 0,
      .held, "base satisfied; holdback pending release condition", holdback.deadlineHeight⟩

def ProofPolicy.releaseReqs (policy : ProofPolicy) : List ProofRequirement :=
  policy.requiredProofs.filter fun r => r.resolution.releases

def ProofPolicy.refundReqs (policy : ProofPolicy) : List ProofRequirement :=
  policy.requiredProofs.filter fun r => r.resolution == .refund

def ProofPolicy.milestoneReleaseReqs (policy : ProofPolicy) (mid : String) : List ProofRequirement :=
  policy.requiredProofs.filter fun r => r.milestoneId == some mid && r.resolution.releases

def ProofPolicy.milestoneRefundReqs (policy : ProofPolicy) (mid : String) : List ProofRequirement :=
  policy.requiredProofs.filter fun r => r.milestoneId == some mid && r.resolution == .refund

def ProofPolicy.milestoneRules (policy : ProofPolicy) (mid : String) : List NoResponseRule :=
  policy.noResponseRules.filter fun r => r.milestoneId == some mid

def evaluateMilestone (policy : ProofPolicy) (proofs : List SettlementProof) (satisfied : List String)
    (tipHeight : Nat) (ms : PolicyMilestone) : MilestoneEvaluationResult :=
  let releaseReqs := policy.milestoneReleaseReqs ms.milestoneId
  let subset := evalMilestoneSubset releaseReqs (policy.milestoneRefundReqs ms.milestoneId)
    (policy.milestoneRules ms.milestoneId) proofs satisfied tipHeight
  { milestoneId := ms.milestoneId
    label := ms.label
    outcome := subset.outcome
    releaseEligible := subset.releaseEligible
    refundEligible := subset.refundEligible
    matchedProofIds := subset.matched
    reason := subset.reason
    holdback := ms.holdback.map fun hb =>
      evaluateHoldback hb (subset.outcome == .satisfied) releaseReqs proofs satisfied tipHeight
    thresholdResults := subset.thresholds }

def aggregate (results : List MilestoneEvaluationResult) : PolicyOutcome × Bool × Bool × String :=
  let completed := results.countP fun r => r.outcome == .satisfied
  if 0 < results.length ∧ completed = results.length then (.satisfied, true, false, "all milestones satisfied")
  else
    match results.find? fun r => r.outcome == .timeout with
    | some r => (.timeout, r.releaseEligible, r.refundEligible,
        "milestone '" ++ r.milestoneId ++ "' timed out: " ++ r.reason)
    | none => (.unsatisfied, false, false, toString completed ++ " of " ++ toString results.length ++
        " milestones satisfied; " ++ toString (results.length - completed) ++ " unsatisfied")

def evaluateMilestones (policy : ProofPolicy) (proofs : List SettlementProof) (satisfied : List String)
    (tipHeight : Nat) (rules : List String) : PolicyEvaluationResult :=
  let results := policy.milestones.map (evaluateMilestone policy proofs satisfied tipHeight)
  let agg := aggregate results
  { outcome := agg.1
    releaseEligible := agg.2.1
    refundEligible := agg.2.2.1
    reason := agg.2.2.2
    evaluatedRules := rules ++ results.map fun r => "milestone '" ++ r.milestoneId ++ "' outcome " ++ r.outcome.debug
    matchedProofIds := (results.flatMap MilestoneEvaluationResult.matchedProofIds).foldl
      (fun ids id => if ids.contains id then ids else ids ++ [id]) []
    milestoneResults := results
    completedMilestoneCount := results.countP fun r => r.outcome == .satisfied
    totalMilestoneCount := results.length
    holdback := none
    thresholdResults := [] }

/-- The notes on refund deadlines that have come, up to the first that was missed. -/
def deadlineNotes (proofs : List SettlementProof) (satisfied : List String) (tipHeight : Nat) :
    List ProofRequirement → List String
  | [] => []
  | req :: rest =>
    match req.requiredBy with
    | some deadline =>
      if deadline ≤ tipHeight then
        if reqSatisfiedThreshold req proofs satisfied then
          ("requirement '" ++ req.requirementId ++ "' refund deadline " ++ toString deadline ++
            " reached but satisfied") :: deadlineNotes proofs satisfied tipHeight rest
        else [missedLabel req deadline tipHeight]
      else deadlineNotes proofs satisfied tipHeight rest
    | none => deadlineNotes proofs satisfied tipHeight rest

def missedReleaseNotes (proofs : List SettlementProof) (satisfied : List String) (tipHeight : Nat)
    (reqs : List ProofRequirement) : List String :=
  reqs.filterMap fun req => do
    let deadline ← req.requiredBy
    if deadline ≤ tipHeight && !reqSatisfiedThreshold req proofs satisfied then
      some ("requirement '" ++ req.requirementId ++ "' release deadline " ++ toString deadline ++
        " missed at tip " ++ toString tipHeight)
    else none

def evaluateWhole (policy : ProofPolicy) (proofs : List SettlementProof) (satisfied : List String)
    (tipHeight : Nat) (rules : List String) : PolicyEvaluationResult :=
  let cutoff := refundCutoff (policy.noResponseRules.filter fun r => r.milestoneId.isNone)
  let timely := timelyIds cutoff proofs satisfied
  let rules := rules ++ (satisfied.filter fun id => !timely.contains id).map fun id =>
    "proof '" ++ id ++ "' excluded from release eligibility: attestation_time exceeds refund deadline " ++
      toString (cutoff.getD 0)
  let thr := thresholdResults policy.requiredProofs proofs satisfied
  if allReleaseMet policy.releaseReqs proofs timely then
    { outcome := .satisfied
      releaseEligible := true
      refundEligible := false
      reason := "all release requirements satisfied by verified proofs"
      evaluatedRules := rules
      matchedProofIds := timely
      milestoneResults := []
      completedMilestoneCount := 0
      totalMilestoneCount := 0
      holdback := policy.holdback.map fun hb => evaluateHoldback hb true policy.releaseReqs proofs timely tipHeight
      thresholdResults := thresholdResults policy.requiredProofs proofs timely }
  else
    match firedRule policy.noResponseRules tipHeight with
    | some rule =>
      { outcome := .timeout
        releaseEligible := rule.resolution.releases
        refundEligible := !rule.resolution.releases
        reason := ruleLabel rule tipHeight
        evaluatedRules := rules ++ [ruleLabel rule tipHeight]
        matchedProofIds := satisfied
        milestoneResults := []
        completedMilestoneCount := 0
        totalMilestoneCount := 0
        holdback := none
        thresholdResults := thr }
    | none =>
      let rules := rules ++ deadlineNotes proofs satisfied tipHeight policy.refundReqs
      match missedDeadline proofs satisfied tipHeight policy.refundReqs with
      | some (req, deadline) =>
        ⟨.timeout, false, true, missedLabel req deadline tipHeight, rules, satisfied, [], 0, 0, none, thr⟩
      | none =>
        ⟨.unsatisfied, false, false, "no release or refund condition was met",
          rules ++ missedReleaseNotes proofs satisfied tipHeight policy.releaseReqs, satisfied, [], 0, 0, none, thr⟩

def evaluatePolicy (a : AgreementObject) (policy : ProofPolicy) (proofs : List SettlementProof)
    (tipHeight : Nat) : Except String PolicyEvaluationResult := do
  let agreementHash := canonicalHashHex C a
  failIf (!eqIgnoreAsciiCase policy.agreementHash agreementHash)
    ("policy agreement_hash '" ++ policy.agreementHash ++ "' does not match the supplied agreement '" ++
      agreementHash ++ "'")
  let rules := proofs.map (proofRule C agreementHash policy)
  let satisfied := satisfiedIds C agreementHash policy proofs
  if policy.milestones ≠ [] then return evaluateMilestones policy proofs satisfied tipHeight rules
  else return evaluateWhole policy proofs satisfied tipHeight rules

end

end IriumConsensus
