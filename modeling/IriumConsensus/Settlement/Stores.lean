import IriumConsensus.Lib.FinMap
import IriumConsensus.Settlement.Policy
import Mathlib.Data.Char
import Mathlib.Data.List.Lex

namespace IriumConsensus

open ByteCodec Checks FinMaps

structure StorePolicyOutcome where
  policyId : String
  agreementHash : String
  accepted : Bool
  updated : Bool
  message : String
  deriving DecidableEq, Repr

/-- The stored policies under the lower-case hash of their agreement. -/
structure PolicyStore where
  policies : FinMap String ProofPolicy

def validateMilestoneIds : List String → List PolicyMilestone → Except String Unit
  | _, [] => .ok ()
  | seen, ms :: rest => do
    failIf (isBlank ms.milestoneId) "milestone_id must not be empty"
    failIf (ms.milestoneId ∈ seen) ("duplicate milestone_id '" ++ ms.milestoneId ++ "'")
    validateMilestoneIds (seen ++ [ms.milestoneId]) rest

def validateHoldback (policy : ProofPolicy) (hb : PolicyHoldback) : Except String Unit := do
  failIf (hb.holdbackBps = 0 ∨ 10000 ≤ hb.holdbackBps) "holdback_bps must be between 1 and 9999"
  failIf (hb.releaseRequirementId.isNone ∧ hb.deadlineHeight.isNone)
    "holdback must specify at least one release condition (release_requirement_id or deadline_height)"
  checkAll (fun reqId => failIf (∀ r ∈ policy.requiredProofs, r.requirementId ≠ reqId)
    ("holdback release_requirement_id '" ++ reqId ++ "' not found in policy requirements"))
    hb.releaseRequirementId.toList

def validateMilestoneHoldback (policy : ProofPolicy) (ms : PolicyMilestone) (hb : PolicyHoldback) :
    Except String Unit := do
  failIf (hb.holdbackBps = 0 ∨ 10000 ≤ hb.holdbackBps)
    ("milestone '" ++ ms.milestoneId ++ "' holdback_bps must be between 1 and 9999")
  failIf (hb.releaseRequirementId.isNone ∧ hb.deadlineHeight.isNone)
    ("milestone '" ++ ms.milestoneId ++ "' holdback must specify at least one release condition")
  checkAll (fun reqId => failIf (∀ r ∈ policy.requiredProofs,
      ¬(r.requirementId = reqId ∧ r.milestoneId = some ms.milestoneId))
    ("milestone '" ++ ms.milestoneId ++ "' holdback release_requirement_id '" ++ reqId ++
      "' not found in milestone requirements")) hb.releaseRequirementId.toList

def validateThreshold (req : ProofRequirement) : Except String Unit :=
  checkAll (fun thr => do
    failIf (thr = 0) ("requirement '" ++ req.requirementId ++ "' threshold must be >= 1")
    failIf req.requiredAttestorIds.isEmpty
      ("requirement '" ++ req.requirementId ++ "' has threshold but no required_attestor_ids")
    failIf (req.requiredAttestorIds.length < thr)
      ("requirement '" ++ req.requirementId ++ "' threshold " ++ toString thr ++
        " exceeds required_attestor_ids count " ++ toString req.requiredAttestorIds.length)) req.threshold.toList

/-- The checks on a policy before it is stored; the thresholds are checked twice. -/
def ProofPolicy.validate (policy : ProofPolicy) : Except String Unit := do
  failIf (isBlank policy.agreementHash) "policy.agreement_hash must not be empty"
  validateMilestoneIds [] policy.milestones
  checkAll (validateHoldback policy) policy.holdback.toList
  checkAll (fun ms => checkAll (validateMilestoneHoldback policy ms) ms.holdback.toList) policy.milestones
  checkAll validateThreshold policy.requiredProofs
  checkAll validateThreshold policy.requiredProofs

def PolicyStore.store (s : PolicyStore) (policy : ProofPolicy) (replace : Bool) :
    Except String (StorePolicyOutcome × PolicyStore) := do
  policy.validate
  let key := asciiLower policy.agreementHash
  match s.policies.lookup key with
  | some existing =>
    if existing.policyId = policy.policyId then
      return (⟨policy.policyId, policy.agreementHash, false, false, "policy already stored (same policy_id)"⟩, s)
    else if replace then
      return (⟨policy.policyId, policy.agreementHash, true, true, "policy replaced"⟩,
        ⟨s.policies.insert key policy⟩)
    else
      return (⟨policy.policyId, policy.agreementHash, false, false, "a policy '" ++ existing.policyId ++
        "' already exists for this agreement; use --replace to overwrite"⟩, s)
  | none =>
    return (⟨policy.policyId, policy.agreementHash, true, false, "policy accepted"⟩, ⟨s.policies.insert key policy⟩)

def PolicyStore.get (s : PolicyStore) (agreementHash : String) : Option ProofPolicy :=
  s.policies.lookup (asciiLower agreementHash)

def attestedBefore (p q : SettlementProof) : Prop :=
  p.attestationTime < q.attestationTime ∨
    (p.attestationTime = q.attestationTime ∧ p.proofId.toList ≤ q.proofId.toList)

instance (p q : SettlementProof) : Decidable (attestedBefore p q) := inferInstanceAs (Decidable (_ ∨ _))

structure SettlementNode where
  tipHeight : Nat
  policyStore : PolicyStore
  proofs : List SettlementProof

def SettlementNode.listByAgreement (node : SettlementNode) (agreementHash : String) : List SettlementProof :=
  (node.proofs.filter fun p => asciiLower p.agreementHash == asciiLower agreementHash).insertionSort attestedBefore

def SettlementNode.activeProofs (node : SettlementNode) (agreementHash : String) : List SettlementProof :=
  (node.listByAgreement agreementHash).filter fun p => p.expiresAtHeight.all fun h => node.tipHeight < h

structure SettlementAction where
  action : String
  recipientLabel : String
  recipientAddress : String
  amountBps : UInt32
  amountSat : UInt64
  executable : Bool
  holdReason : Option String
  executableAfterHeight : Option Nat
  deriving DecidableEq, Repr

structure BuildSettlementTxResponse where
  agreementHash : String
  policyFound : Bool
  tipHeight : Nat
  releaseEligible : Bool
  refundEligible : Bool
  outcome : PolicyOutcome
  reason : String
  totalAmountSat : UInt64
  actions : List SettlementAction
  deriving DecidableEq, Repr

/-- The share of an amount, computed in 128 bits and cut to 64. -/
def bpsShare (totalSat : UInt64) (bps : UInt32) : UInt64 := UInt64.ofNat (totalSat.toNat * bps.toNat / 10000)

def AgreementObject.addressOf (a : AgreementObject) (partyId : String) : String :=
  ((a.parties.find? fun p => p.partyId = partyId).map AgreementParty.address).getD partyId

def releaseActions (a : AgreementObject) (hb : HoldbackEvaluationResult) : List SettlementAction :=
  { action := "release"
    recipientLabel := "payee (immediate)"
    recipientAddress := a.addressOf a.payee
    amountBps := hb.immediateReleaseBps
    amountSat := bpsShare a.totalAmount hb.immediateReleaseBps
    executable := true
    holdReason := none
    executableAfterHeight := none } ::
  if 0 < hb.holdbackBps then
    [{ action := "release"
       recipientLabel := "payee (holdback)"
       recipientAddress := a.addressOf a.payee
       amountBps := hb.holdbackBps
       amountSat := bpsShare a.totalAmount hb.holdbackBps
       executable := hb.holdbackReleased
       holdReason := if hb.holdbackReleased then none else some hb.holdbackReason
       executableAfterHeight := if hb.holdbackReleased then none else hb.deadlineHeight }]
  else []

def settlementActions (a : AgreementObject) (result : PolicyEvaluationResult) : List SettlementAction :=
  if result.releaseEligible then
    match result.holdback with
    | some hb => releaseActions a hb
    | none => [⟨"release", "payee", a.addressOf a.payee, 10000, a.totalAmount, true, none, none⟩]
  else if result.refundEligible then
    [⟨"refund", "payer", a.addressOf a.payer, 10000, a.totalAmount, true, none, none⟩]
  else []

variable (C : Crypto)

def buildSettlementTx (node : SettlementNode) (a : AgreementObject) : Except String BuildSettlementTxResponse := do
  let agreementHash ← (computeAgreementHashHex C a).mapError fun e => "agreement_hash_failed:" ++ e
  match node.policyStore.get agreementHash with
  | none =>
    return ⟨agreementHash, false, node.tipHeight, false, false, .unsatisfied, "no policy stored for this agreement",
      a.totalAmount, []⟩
  | some policy =>
    let result ← (evaluatePolicy C a policy (node.activeProofs agreementHash) node.tipHeight).mapError
      fun e => "policy_eval_failed:" ++ e
    return ⟨agreementHash, true, node.tipHeight, result.releaseEligible, result.refundEligible, result.outcome,
      result.reason, a.totalAmount, settlementActions a result⟩

end IriumConsensus
