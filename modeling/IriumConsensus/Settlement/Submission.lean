import IriumConsensus.Settlement.ReleaseSound

namespace IriumConsensus

open ByteCodec Checks

/-- The attributes of a payload: the fields of an object, each null or some value, or anything else. -/
inductive Attributes where
  | object (fields : List (String × Option String))
  | other
  deriving DecidableEq, Repr

structure TypedProofPayload where
  proofKind : String
  contentHash : Option String := none
  referenceId : Option String := none
  attributes : Option Attributes := none
  deriving DecidableEq, Repr

/-- A proof with the fields that the evaluation does not look at. -/
structure SubmittedProof extends SettlementProof where
  payloadHash : String := ""
  typedPayload : Option TypedProofPayload := none
  deriving DecidableEq, Repr

section

def notLowerHex64 (s : String) : Bool :=
  (utf8 s).length != 64 || s.toList.any fun c => (hexValue c).isNone || ('A' ≤ c && c ≤ 'Z')

def validateTypedProofPayload (payload : TypedProofPayload) (evidenceHash : Option String) : Except String Unit := do
  failIf (isBlank payload.proofKind) "typed_payload.proof_kind must not be empty"
  checkAll (fun ch => do
    failIf (notLowerHex64 ch) ("typed_payload.content_hash must be 64 lowercase hex chars, got: " ++ ch)
    checkAll (fun eh => failIf (ch ≠ eh)
      ("typed_payload.content_hash " ++ ch ++ " does not match proof evidence_hash " ++ eh)) evidenceHash.toList)
    payload.contentHash.toList
  failIf (payload.attributes = some .other) "typed_payload.attributes must be a JSON object"

structure ProofSchema where
  proofType : String
  requiredFields : List String

def standardProofSchemas : List ProofSchema :=
  [⟨"payment_received", ["payment_method", "payment_reference", "amount", "currency", "timestamp"]⟩,
    ⟨"delivery_confirmed", ["delivery_method", "tracking_reference", "delivery_address_hash", "timestamp"]⟩,
    ⟨"work_completed", ["deliverable_hash", "completion_notes", "timestamp"]⟩,
    ⟨"milestone_delivered", ["milestone_id", "deliverable_hash", "completion_notes", "timestamp"]⟩,
    ⟨"deposit_conditions_met", ["condition_description", "evidence_hash", "timestamp"]⟩]

def lookupProofSchema (proofType : String) : Option ProofSchema :=
  standardProofSchemas.find? fun s => s.proofType = proofType

def bracketed (fields : List String) : String := "[" ++ ", ".intercalate fields ++ "]"

def validateProofAgainstSchema (proof : SubmittedProof) : Except String Unit :=
  match lookupProofSchema proof.proofType with
  | none => .ok ()
  | some schema => do
    let payload ← orFail proof.typedPayload ("proof_type '" ++ schema.proofType ++
      "' requires typed_payload with attributes: " ++ bracketed schema.requiredFields)
    let attributes ← orFail payload.attributes ("proof_type '" ++ schema.proofType ++
      "' requires typed_payload.attributes (got None); required: " ++ bracketed schema.requiredFields)
    match attributes with
    | .other => .error ("proof_type '" ++ schema.proofType ++ "': typed_payload.attributes must be a JSON object")
    | .object fields =>
      let missing := schema.requiredFields.filter fun field => (fields.lookup field).join.isNone
      failIf (missing ≠ []) ("proof_type '" ++ schema.proofType ++ "' missing required field(s): " ++ bracketed missing)

end

section

variable (C : Crypto)

def verifySettlementProofSignatureOnly (proof : SettlementProof) : Except String Unit := do
  failIf (proof.signature.signatureType ≠ "secp256k1_ecdsa_sha256")
    ("unsupported signature type: " ++ proof.signature.signatureType)
  failIf (isBlank proof.proofId) "proof_id must not be empty"
  failIf (isBlank proof.agreementHash) "agreement_hash must not be empty"
  verifyProofSignature C proof

def checkForm (proof : SubmittedProof) : Except String Unit := do
  failIf (proof.schemaId ≠ "irium.phase2.settlement_proof.v1") "proof schema_id must be irium.phase2.settlement_proof.v1"
  checkAll (fun payload => (validateTypedProofPayload payload proof.evidenceHash).mapError
    ("typed_payload validation: " ++ ·)) proof.typedPayload.toList
  (validateProofAgainstSchema proof).mapError ("schema validation: " ++ ·)

def checkSubmission (proof : SubmittedProof) : Except String Unit := do
  checkForm proof
  verifySettlementProofSignatureOnly C proof.toSettlementProof

structure SubmitProofOutcome where
  proofId : String
  agreementHash : String
  accepted : Bool
  duplicate : Bool
  message : String
  deriving DecidableEq, Repr

structure ProofStore where
  proofs : List SubmittedProof

def ProofStore.getById (store : ProofStore) (proofId : String) : Option SubmittedProof :=
  store.proofs.find? fun p => p.proofId = proofId

def ProofStore.submit (store : ProofStore) (proof : SubmittedProof) :
    Except String (SubmitProofOutcome × ProofStore) := do
  checkSubmission C proof
  if (store.getById proof.proofId).isSome then
    return (⟨proof.proofId, proof.agreementHash, false, true, "proof already stored"⟩, store)
  else
    return (⟨proof.proofId, proof.agreementHash, true, false, "proof accepted"⟩, ⟨store.proofs ++ [proof]⟩)

def ProofStore.after (store : ProofStore) (proof : SubmittedProof) : ProofStore :=
  match store.submit C proof with
  | .ok (_, store') => store'
  | .error _ => store

def submitAll (proofs : List SubmittedProof) : ProofStore := proofs.foldl (ProofStore.after C) ⟨[]⟩

def Unharmed (others : List SubmittedProof) (proof : SubmittedProof) : Prop :=
  ∃ outcome store, (submitAll C others).submit C proof = .ok (outcome, store) ∧
    store.getById proof.proofId = some proof

def firstTaken (proofId : String) (others : List SubmittedProof) : Option SubmittedProof :=
  others.find? fun q => q.proofId = proofId ∧ (checkSubmission C q).isOk

end

section

variable {C : Crypto} {store : ProofStore} {proof : SubmittedProof} {others : List SubmittedProof} {proofId : String}

/-- The store with the proof under its identifier, unless another one is there. -/
def ProofStore.put (store : ProofStore) (proof : SubmittedProof) : ProofStore :=
  if (store.getById proof.proofId).isSome then store else ⟨store.proofs ++ [proof]⟩

theorem getById_put : (store.put proof).getById proofId =
    (store.getById proofId).or (if proof.proofId = proofId then some proof else none) := by
  unfold ProofStore.put
  split
  next hdup =>
    split
    next heq =>
      obtain ⟨old, hold⟩ := Option.isSome_iff_exists.mp (heq ▸ hdup)
      rw [hold, Option.some_or]
    next => rw [Option.or_none]
  next =>
    rw [ProofStore.getById, List.find?_append, List.find?_singleton]
    simp only [decide_eq_true_eq]
    rfl

theorem submit_ok (h : checkSubmission C proof = .ok ()) :
    ∃ outcome, store.submit C proof = .ok (outcome, store.put proof) := by
  unfold ProofStore.submit ProofStore.put
  rw [h]
  by_cases hdup : (store.getById proof.proofId).isSome
  · rw [if_pos hdup, if_pos hdup]
    exact ⟨_, rfl⟩
  · rw [if_neg hdup, if_neg hdup]
    exact ⟨_, rfl⟩

theorem submit_error {e : String} (h : checkSubmission C proof = .error e) : store.submit C proof = .error e := by
  rw [ProofStore.submit, h]
  rfl

theorem getById_after : (store.after C proof).getById proofId =
    (store.getById proofId).or (firstTaken C proofId [proof]) := by
  unfold ProofStore.after firstTaken
  rw [List.find?_singleton]
  cases hcheck : checkSubmission C proof with
  | error e => simp [submit_error hcheck, Except.isOk, Except.toBool]
  | ok u =>
    obtain ⟨outcome, hsubmit⟩ := @submit_ok C store _ hcheck
    rw [hsubmit, getById_put]
    simp [Except.isOk, Except.toBool]

theorem getById_submitAll : (submitAll C others).getById proofId = firstTaken C proofId others := by
  have hgeneral : ∀ store : ProofStore, (others.foldl (ProofStore.after C) store).getById proofId =
      (store.getById proofId).or (firstTaken C proofId others) := by
    induction others with
    | nil => exact fun store => (Option.or_none).symm
    | cons q rest ih =>
      intro store
      rw [List.foldl_cons, ih, getById_after, Option.or_assoc]
      exact congrArg _ List.find?_append.symm
  exact hgeneral ⟨[]⟩

theorem unharmed_iff_checked : Unharmed C others proof ↔
    checkSubmission C proof = .ok () ∧ ∀ q, firstTaken C proof.proofId others = some q → q = proof := by
  have hstored : ((submitAll C others).put proof).getById proof.proofId = some proof ↔
      ∀ q, firstTaken C proof.proofId others = some q → q = proof := by
    rw [getById_put, getById_submitAll, if_pos rfl]
    cases firstTaken C proof.proofId others with
    | none => simp
    | some q => simp
  constructor
  · rintro ⟨outcome, store, hsubmit, hget⟩
    cases hcheck : checkSubmission C proof with
    | error e =>
      rw [submit_error hcheck] at hsubmit
      exact absurd hsubmit (by simp)
    | ok u =>
      obtain ⟨outcome', hok⟩ := @submit_ok C (submitAll C others) _ hcheck
      obtain ⟨-, rfl⟩ := Prod.mk.inj (Except.ok.inj (hsubmit.symm.trans hok))
      exact ⟨rfl, hstored.mp hget⟩
  · rintro ⟨hcheck, hfirst⟩
    obtain ⟨outcome, hok⟩ := @submit_ok C (submitAll C others) _ hcheck
    exact ⟨outcome, _, hok, hstored.mpr hfirst⟩

theorem checkSubmission_of_verified {policy : ProofPolicy}
    (h : verifySettlementProof C proof.toSettlementProof policy = .ok ()) :
    checkSubmission C proof = .ok () ↔
      checkForm proof = .ok () ∧ isBlank proof.proofId = false ∧ isBlank proof.agreementHash = false := by
  simp only [verifySettlementProof, bind_eq_ok, exists_unit, failIf_eq_ok] at h
  obtain ⟨htype, -, hsig⟩ := h
  simp only [checkSubmission, verifySettlementProofSignatureOnly, bind_eq_ok, exists_unit, failIf_eq_ok,
    Bool.not_eq_true]
  exact ⟨fun hall => ⟨hall.1, hall.2.2.1, hall.2.2.2.1⟩, fun hall => ⟨hall.1, htype, hall.2.1, hall.2.2, hsig⟩⟩

/-- A signed proof comes through unharmed exactly when it is well formed itself and the first submission that is taken
under its identifier, if there is one, is the very same. -/
theorem submissions_unharmed_iff {policy : ProofPolicy}
    (h : verifySettlementProof C proof.toSettlementProof policy = .ok ()) (others : List SubmittedProof) :
    Unharmed C others proof ↔
      (checkForm proof = .ok () ∧ isBlank proof.proofId = false ∧ isBlank proof.agreementHash = false) ∧
        ∀ q, firstTaken C proof.proofId others = some q → q = proof := by
  rw [unharmed_iff_checked, checkSubmission_of_verified h]

end

section

def carrierPolicy : ProofPolicy := singleDemand (encodeHex saleHash.bytes) [carrier] "delivered" "carrier" none 5

def submittedDelivery : SubmittedProof := { deliveryProof with }

theorem submittedDelivery_verified :
    verifySettlementProof saleCrypto submittedDelivery.toSettlementProof carrierPolicy = .ok () := by
  have hverified : checkProof saleCrypto (encodeHex saleHash.bytes) carrierPolicy deliveryProof = .ok () :=
    @deliveryProof_verified carrierPolicy (by simp [carrierPolicy, singleDemand])
  simp only [checkProof, bind_eq_ok, exists_unit, failIf_eq_ok] at hverified
  exact hverified.2

theorem submittedDelivery_form : checkForm submittedDelivery = .ok () ∧
    isBlank submittedDelivery.proofId = false ∧ isBlank submittedDelivery.agreementHash = false :=
  ⟨by decide, by decide, by decide⟩

theorem submittedDelivery_unharmed : Unharmed saleCrypto [submittedDelivery] submittedDelivery := by
  refine (submissions_unharmed_iff submittedDelivery_verified _).mpr ⟨submittedDelivery_form, fun q hq => ?_⟩
  exact List.mem_singleton.mp (List.mem_of_find?_eq_some hq)

def expiringDelivery : SubmittedProof := { submittedDelivery with expiresAtHeight := some 1 }

/-- A copy with another expiry, submitted first, keeps the proof of the attestor out. -/
theorem altered_copy_blocks_proof :
    verifySettlementProof saleCrypto submittedDelivery.toSettlementProof carrierPolicy = .ok () ∧
      Unharmed saleCrypto [] submittedDelivery ∧ ¬Unharmed saleCrypto [expiringDelivery] submittedDelivery := by
  have hchecked := (checkSubmission_of_verified submittedDelivery_verified).mpr submittedDelivery_form
  have hcopy : verifySettlementProof saleCrypto expiringDelivery.toSettlementProof carrierPolicy = .ok () :=
    submittedDelivery_verified
  have hform : checkForm expiringDelivery = .ok () ∧ isBlank expiringDelivery.proofId = false ∧
      isBlank expiringDelivery.agreementHash = false := ⟨by decide, submittedDelivery_form.2⟩
  refine ⟨submittedDelivery_verified, unharmed_iff_checked.mpr ⟨hchecked, fun q hq => absurd hq (by simp [firstTaken])⟩, ?_⟩
  intro h
  have hfirst : firstTaken saleCrypto submittedDelivery.proofId [expiringDelivery] = some expiringDelivery := by
    rw [firstTaken, List.find?_singleton, (checkSubmission_of_verified hcopy).mpr hform]
    rfl
  have hsame := (unharmed_iff_checked.mp h).2 _ hfirst
  exact absurd (congrArg (fun p => p.expiresAtHeight) hsame) (by decide)

end

end IriumConsensus
