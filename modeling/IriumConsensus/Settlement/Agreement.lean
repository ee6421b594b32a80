import IriumConsensus.Lib.Checks
import IriumConsensus.Lib.JsonText
import IriumConsensus.Lib.Text
import IriumConsensus.Pow

namespace IriumConsensus

open ByteCodec Checks

inductive AgreementTemplateType where
  | simpleReleaseRefund
  | milestoneSettlement
  | refundableDeposit
  | otcSettlement
  | merchantDelayedSettlement
  | contractorMilestone
  deriving DecidableEq, Repr

def AgreementTemplateType.toJson : AgreementTemplateType → Json
  | simpleReleaseRefund => .str "simple_release_refund"
  | milestoneSettlement => .str "milestone_settlement"
  | refundableDeposit => .str "refundable_deposit"
  | otcSettlement => .str "otc_settlement"
  | merchantDelayedSettlement => .str "merchant_delayed_settlement"
  | contractorMilestone => .str "contractor_milestone"

/-- Templates that may name resolvers and on which a dispute may be raised. -/
def AgreementTemplateType.disputeEligible : AgreementTemplateType → Bool
  | otcSettlement | milestoneSettlement | contractorMilestone => true
  | _ => false

structure AgreementParty where
  partyId : String
  displayName : String
  address : String
  role : Option String := none
  deriving DecidableEq, Repr

structure AgreementDeadlines where
  settlementDeadline : Option Nat := none
  refundDeadline : Option Nat := none
  disputeWindow : Option Nat := none
  deriving DecidableEq, Repr

structure AgreementReleaseCondition where
  mode : String
  secretHashHex : Option String := none
  releaseAuthorizer : Option String := none
  notes : Option String := none
  deriving DecidableEq, Repr

structure AgreementRefundCondition where
  refundAddress : String
  timeoutHeight : Nat
  notes : Option String := none
  deriving DecidableEq, Repr

structure AgreementMilestone where
  milestoneId : String
  title : String
  amount : UInt64
  recipientAddress : String
  refundAddress : String
  secretHashHex : String
  timeoutHeight : Nat
  metadataHash : Option String := none
  deriving DecidableEq, Repr

structure AgreementDepositRule where
  amount : UInt64
  beneficiaryAddress : String
  refundAddress : String
  timeoutHeight : Nat
  notes : Option String := none
  deriving DecidableEq, Repr

structure AgreementObject where
  agreementId : String
  version : Nat := 1
  schemaId : Option String := none
  templateType : AgreementTemplateType
  parties : List AgreementParty
  payer : String
  payee : String
  mediatorReference : Option String := none
  totalAmount : UInt64
  networkMarker : String := "IRIUM"
  creationTime : Nat
  deadlines : AgreementDeadlines := {}
  releaseConditions : List AgreementReleaseCondition
  refundConditions : List AgreementRefundCondition
  milestones : List AgreementMilestone := []
  depositRule : Option AgreementDepositRule := none
  proofPolicyReference : Option String := none
  assetReference : Option String := none
  paymentReference : Option String := none
  purposeReference : Option String := none
  releaseSummary : Option String := none
  refundSummary : Option String := none
  attestorReference : Option String := none
  resolverReference : Option String := none
  notes : Option String := none
  documentHash : String
  metadataHash : Option String := none
  invoiceReference : Option String := none
  externalReference : Option String := none
  disputedMetadataOnly : Bool := false
  primaryResolver : Option String := none
  fallbackResolver : Option String := none
  primaryResolverFee : Option UInt64 := none
  fallbackResolverFee : Option UInt64 := none
  deriving DecidableEq, Repr

section

open Json

def AgreementParty.toJson (p : AgreementParty) : Json :=
  obj [("party_id", str p.partyId), ("display_name", str p.displayName), ("address", str p.address),
    ("role", optStr p.role)]

def AgreementDeadlines.toJson (d : AgreementDeadlines) : Json :=
  obj [("settlement_deadline", optNat d.settlementDeadline), ("refund_deadline", optNat d.refundDeadline),
    ("dispute_window", optNat d.disputeWindow)]

def AgreementReleaseCondition.toJson (c : AgreementReleaseCondition) : Json :=
  obj [("mode", str c.mode), ("secret_hash_hex", optStr c.secretHashHex),
    ("release_authorizer", optStr c.releaseAuthorizer), ("notes", optStr c.notes)]

def AgreementRefundCondition.toJson (c : AgreementRefundCondition) : Json :=
  obj [("refund_address", str c.refundAddress), ("timeout_height", nat c.timeoutHeight), ("notes", optStr c.notes)]

def AgreementMilestone.toJson (m : AgreementMilestone) : Json :=
  obj [("milestone_id", str m.milestoneId), ("title", str m.title), ("amount", nat m.amount.toNat),
    ("recipient_address", str m.recipientAddress), ("refund_address", str m.refundAddress),
    ("secret_hash_hex", str m.secretHashHex), ("timeout_height", nat m.timeoutHeight),
    ("metadata_hash", optStr m.metadataHash)]

def AgreementDepositRule.toJson (r : AgreementDepositRule) : Json :=
  obj [("amount", nat r.amount.toNat), ("beneficiary_address", str r.beneficiaryAddress),
    ("refund_address", str r.refundAddress), ("timeout_height", nat r.timeoutHeight), ("notes", optStr r.notes)]

def AgreementObject.toJson (a : AgreementObject) : Json :=
  obj ([("agreement_id", str a.agreementId), ("version", nat a.version)] ++
    optionField "schema_id" (a.schemaId.map str) ++
    [("template_type", a.templateType.toJson), ("parties", arr (a.parties.map AgreementParty.toJson)),
      ("payer", str a.payer), ("payee", str a.payee), ("mediator_reference", optStr a.mediatorReference),
      ("total_amount", nat a.totalAmount.toNat), ("network_marker", str a.networkMarker),
      ("creation_time", nat a.creationTime), ("deadlines", a.deadlines.toJson),
      ("release_conditions", arr (a.releaseConditions.map AgreementReleaseCondition.toJson)),
      ("refund_conditions", arr (a.refundConditions.map AgreementRefundCondition.toJson)),
      ("milestones", arr (a.milestones.map AgreementMilestone.toJson)),
      ("deposit_rule", ofOption AgreementDepositRule.toJson a.depositRule),
      ("proof_policy_reference", optStr a.proofPolicyReference)] ++
    optionField "asset_reference" (a.assetReference.map str) ++
    optionField "payment_reference" (a.paymentReference.map str) ++
    optionField "purpose_reference" (a.purposeReference.map str) ++
    optionField "release_summary" (a.releaseSummary.map str) ++
    optionField "refund_summary" (a.refundSummary.map str) ++
    optionField "attestor_reference" (a.attestorReference.map str) ++
    optionField "resolver_reference" (a.resolverReference.map str) ++
    optionField "notes" (a.notes.map str) ++
    [("document_hash", str a.documentHash), ("metadata_hash", optStr a.metadataHash),
      ("invoice_reference", optStr a.invoiceReference), ("external_reference", optStr a.externalReference),
      ("disputed_metadata_only", bool a.disputedMetadataOnly)] ++
    optionField "primary_resolver" (a.primaryResolver.map str) ++
    optionField "fallback_resolver" (a.fallbackResolver.map str) ++
    optionField "primary_resolver_fee" (a.primaryResolverFee.map fun fee => nat fee.toNat) ++
    optionField "fallback_resolver_fee" (a.fallbackResolverFee.map fun fee => nat fee.toNat))

end

def agreementCanonicalBytes (a : AgreementObject) : Bytes := Json.canonicalBytes a.toJson

section

def notHash32Hex (s : String) : Bool := (utf8 s).length != 64 || (decodeHex s).isNone

def validateOptionalTextField (name : String) (value : Option String) : Except String Unit :=
  failIf (value.any isBlank) (name ++ " must not be empty when provided")

/-- The parties in order, each against the identifiers before it. -/
def validateParties : List String → List AgreementParty → Except String Unit
  | _, [] => .ok ()
  | seen, party :: rest => do
    failIf (isBlank party.partyId) "party_id required"
    failIf (isBlank party.displayName) ("display_name required for " ++ party.partyId)
    failIf (isBlank party.address) ("address required for " ++ party.partyId)
    failIf (party.partyId ∈ seen) ("duplicate party_id " ++ party.partyId)
    validateParties (seen ++ [party.partyId]) rest

def milestoneSum (milestones : List AgreementMilestone) : UInt64 := (milestones.map AgreementMilestone.amount).sum

def validateMilestoneSum (a : AgreementObject) : Except String Unit :=
  match a.templateType with
  | .milestoneSettlement | .contractorMilestone => do
    failIf a.milestones.isEmpty "milestone template requires milestones"
    failIf (milestoneSum a.milestones ≠ a.totalAmount) "milestone amounts must sum to total_amount"
  | _ =>
    failIf (a.milestones ≠ [] ∧ milestoneSum a.milestones ≠ a.totalAmount)
      "milestone amounts must sum to total_amount when present"

def validateReleaseCondition (cond : AgreementReleaseCondition) : Except String Unit := do
  failIf (isBlank cond.mode) "release condition mode required"
  checkWhen (cond.mode == "secret_preimage") do
    let secretHashHex ← orFail cond.secretHashHex "secret_preimage release condition requires secret_hash_hex"
    failIf (notHash32Hex secretHashHex) "release secret_hash_hex must be 32-byte hex"

def validateRefundCondition (cond : AgreementRefundCondition) : Except String Unit := do
  failIf (isBlank cond.refundAddress) "refund address required"
  failIf (cond.timeoutHeight = 0) "refund timeout_height must be > 0"

def validateMilestones : List String → List AgreementMilestone → Except String Unit
  | _, [] => .ok ()
  | seen, m :: rest => do
    failIf (isBlank m.milestoneId) "milestone_id required"
    failIf (m.milestoneId ∈ seen) ("duplicate milestone_id " ++ m.milestoneId)
    failIf (isBlank m.title) ("milestone title required for " ++ m.milestoneId)
    failIf (m.amount = 0) "milestone amount must be > 0"
    failIf (isBlank m.recipientAddress) ("milestone recipient_address required for " ++ m.milestoneId)
    failIf (isBlank m.refundAddress) ("milestone refund_address required for " ++ m.milestoneId)
    failIf (notHash32Hex m.secretHashHex) ("invalid milestone secret_hash_hex for " ++ m.milestoneId)
    failIf (m.timeoutHeight = 0) ("milestone timeout_height must be > 0 for " ++ m.milestoneId)
    validateMilestones (seen ++ [m.milestoneId]) rest

def validateDepositRule (rule : AgreementDepositRule) : Except String Unit := do
  failIf (rule.amount = 0) "deposit amount must be > 0"
  failIf (isBlank rule.beneficiaryAddress) "deposit beneficiary_address required"
  failIf (isBlank rule.refundAddress) "deposit refund_address required"
  failIf (rule.timeoutHeight = 0) "deposit timeout_height must be > 0"

def validatePrimaryResolver (a : AgreementObject) : Except String Unit :=
  match a.primaryResolver with
  | some addr => do
    let fee ← orFail a.primaryResolverFee "primary_resolver_fee required when primary_resolver is set"
    failIf (fee = 0) "primary_resolver_fee must be > 0"
    failIf (a.totalAmount ≤ fee) "primary_resolver_fee must be < total_amount"
    failIf (isBlank addr) "primary_resolver address required"
  | none => failIf a.primaryResolverFee.isSome "primary_resolver_fee set without primary_resolver"

def validateFallbackResolver (a : AgreementObject) : Except String Unit :=
  match a.fallbackResolver with
  | some addr => do
    let primary ← orFail a.primaryResolver "fallback_resolver requires primary_resolver"
    let fee ← orFail a.fallbackResolverFee "fallback_resolver_fee required when fallback_resolver is set"
    failIf (fee = 0) "fallback_resolver_fee must be > 0"
    failIf (isBlank addr) "fallback_resolver address required"
    failIf (trimText addr = trimText primary) "fallback_resolver must differ from primary_resolver"
    failIf (a.totalAmount.toNat ≤ min ((a.primaryResolverFee.getD 0).toNat + fee.toNat) (2 ^ 64 - 1))
      "primary + fallback resolver fees must be < total_amount"
  | none => failIf a.fallbackResolverFee.isSome "fallback_resolver_fee set without fallback_resolver"

def AgreementObject.validate (a : AgreementObject) : Except String Unit := do
  failIf (a.version ≠ 1) ("unsupported agreement version " ++ toString a.version)
  checkAll (fun schemaId => failIf (schemaId ≠ "irium.phase1.canonical.v1")
    ("unsupported agreement schema_id " ++ schemaId)) a.schemaId.toList
  failIf (trimText a.networkMarker ≠ "IRIUM") "network_marker must be IRIUM"
  failIf (isBlank a.agreementId) "agreement_id required"
  failIf (a.totalAmount = 0) "total_amount must be > 0"
  failIf (a.parties.length < 2) "at least two parties required"
  validateParties [] a.parties
  failIf (a.payer = a.payee) "payer and payee must differ"
  failIf (∀ p ∈ a.parties, p.partyId ≠ a.payer) "payer must reference a declared party"
  failIf (∀ p ∈ a.parties, p.partyId ≠ a.payee) "payee must reference a declared party"
  validateOptionalTextField "asset_reference" a.assetReference
  validateOptionalTextField "payment_reference" a.paymentReference
  validateOptionalTextField "purpose_reference" a.purposeReference
  validateOptionalTextField "release_summary" a.releaseSummary
  validateOptionalTextField "refund_summary" a.refundSummary
  validateOptionalTextField "attestor_reference" a.attestorReference
  validateOptionalTextField "resolver_reference" a.resolverReference
  validateOptionalTextField "notes" a.notes
  failIf (notHash32Hex a.documentHash) "document_hash must be 32-byte hex"
  failIf (a.metadataHash.any notHash32Hex) "metadata_hash must be 32-byte hex"
  failIf a.releaseConditions.isEmpty "at least one release condition required"
  failIf a.refundConditions.isEmpty "at least one refund condition required"
  failIf (∃ s ∈ a.deadlines.settlementDeadline, ∃ r ∈ a.deadlines.refundDeadline, r < s)
    "settlement_deadline must be <= refund_deadline"
  validateMilestoneSum a
  checkAll validateReleaseCondition a.releaseConditions
  checkAll validateRefundCondition a.refundConditions
  validateMilestones [] a.milestones
  checkAll validateDepositRule a.depositRule.toList
  failIf (a.templateType.disputeEligible = false ∧ (a.primaryResolver.isSome ∨ a.fallbackResolver.isSome ∨
    a.primaryResolverFee.isSome ∨ a.fallbackResolverFee.isSome))
    "resolver fields are only allowed on OTC, milestone, and contractor templates"
  validatePrimaryResolver a
  validateFallbackResolver a

end

variable (C : Crypto)

def canonicalHashHex (a : AgreementObject) : String := encodeHex (C.sha256 (agreementCanonicalBytes a)).bytes

def computeAgreementHashHex (a : AgreementObject) : Except String String := do
  a.validate
  return canonicalHashHex C a

end IriumConsensus
