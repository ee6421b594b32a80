import IriumConsensus.RealHash
import IriumConsensus.Settlement.Stores
import IriumConsensus.Settlement.Verdict

namespace IriumConsensus

open ByteCodec Checks

variable {C : Crypto}

/-- A proof that may count for a requirement: it passes the checks itself and is not attested too late. -/
structure Vouches (C : Crypto) (agreementHash : String) (policy : ProofPolicy) (c : Clause) (req : ProofRequirement)
    (p : SettlementProof) : Prop where
  verified : Verified C agreementHash policy p
  names : req.Names p
  inTime : ∀ k ∈ c.cutoff, p.attestationTime ≤ k

/-- A release rests, for each requirement, on enough distinct attestors with a proof of their own, and no attestor
counts without one. -/
def ReleaseSound (C : Crypto) (a : AgreementObject) (policy : ProofPolicy) (proofs : List SettlementProof)
    (tipHeight : Nat) : Prop :=
  ∀ res, evaluatePolicy C a policy proofs tipHeight = .ok res → res.outcome = .satisfied →
    ∀ c ∈ policy.clauses, ∀ req ∈ c.releaseReqs,
      (∃ attestors : Finset String, req.quota ≤ attestors.card ∧ ∀ v ∈ attestors, v ∈ req.requiredAttestorIds ∧
        ∃ p ∈ proofs, p.attestedBy = v ∧ Vouches C (canonicalHashHex C a) policy c req p) ∧
      ∀ p ∈ proofs, proofFits req (c.timely proofs (satisfiedIds C (canonicalHashHex C a) policy proofs)) p →
        ∃ b ∈ proofs, b.attestedBy = p.attestedBy ∧ Vouches C (canonicalHashHex C a) policy c req b

/-- A proof for the requirement under the identifier of a verified proof and of one that is in time. -/
structure Passes (C : Crypto) (agreementHash : String) (policy : ProofPolicy) (proofs : List SettlementProof)
    (c : Clause) (req : ProofRequirement) (p : SettlementProof) : Prop where
  names : req.Names p
  verified : ∃ q ∈ proofs, Verified C agreementHash policy q ∧ q.proofId = p.proofId
  inTime : ∀ k ∈ c.cutoff, ∃ q ∈ proofs, q.proofId = p.proofId ∧ q.attestationTime ≤ k

/-- The attestor of a proof that passes for a release requirement of the policy has one that vouches for it. -/
def Backed (C : Crypto) (agreementHash : String) (policy : ProofPolicy) (proofs : List SettlementProof) : Prop :=
  ∀ c ∈ policy.clauses, ∀ req ∈ c.releaseReqs, ∀ p ∈ proofs, Passes C agreementHash policy proofs c req p →
    ∃ b ∈ proofs, b.attestedBy = p.attestedBy ∧ Vouches C agreementHash policy c req b

/-- The policy is one for the agreement, and for each of its requirements enough attestors have a proof that passes. -/
structure Filled (C : Crypto) (agreementHash : String) (policy : ProofPolicy) (proofs : List SettlementProof) :
    Prop where
  agreement : eqIgnoreAsciiCase policy.agreementHash agreementHash
  requires : ∀ c ∈ policy.clauses, c.releaseReqs ≠ []
  attestors : ∀ c ∈ policy.clauses, ∀ req ∈ c.releaseReqs, ∃ vs : Finset String, req.quota ≤ vs.card ∧
    ∀ v ∈ vs, ∃ p ∈ proofs, p.attestedBy = v ∧ Passes C agreementHash policy proofs c req p

section

variable {a : AgreementObject} {agreementHash : String} {policy : ProofPolicy} {proofs : List SettlementProof}
  {c : Clause} {req : ProofRequirement}

theorem proofFits_timely {p : SettlementProof} :
    proofFits req (c.timely proofs (satisfiedIds C agreementHash policy proofs)) p ↔
      Passes C agreementHash policy proofs c req p := by
  rw [proofFits_iff, Clause.timely, mem_timelyIds, mem_satisfiedIds]
  exact ⟨fun h => ⟨h.2, h.1.1, h.1.2⟩, fun h => ⟨⟨h.verified, h.inTime⟩, h.names⟩⟩

theorem reqSatisfiedThreshold_timely :
    reqSatisfiedThreshold req proofs (c.timely proofs (satisfiedIds C agreementHash policy proofs)) ↔
      ∃ vs : Finset String, req.quota ≤ vs.card ∧
        ∀ v ∈ vs, ∃ p ∈ proofs, p.attestedBy = v ∧ Passes C agreementHash policy proofs c req p := by
  rw [reqSatisfiedThreshold_iff]
  constructor
  · intro hquota
    refine ⟨_, hquota, fun v hv => ?_⟩
    obtain ⟨p, hp, hfit, hby⟩ := mem_voters.mp hv
    exact ⟨p, hp, hby, proofFits_timely.mp hfit⟩
  · rintro ⟨vs, hquota, hall⟩
    refine hquota.trans (Finset.card_le_card fun v hv => ?_)
    obtain ⟨p, hp, hby, hpass⟩ := hall v hv
    exact mem_voters.mpr ⟨p, hp, proofFits_timely.mpr hpass, hby⟩

theorem Filled.satisfied (h : Filled C (canonicalHashHex C a) policy proofs) (tipHeight : Nat) :
    ∃ res, evaluatePolicy C a policy proofs tipHeight = .ok res ∧ res.outcome = .satisfied := by
  obtain ⟨res, hres⟩ : ∃ res, evaluatePolicy C a policy proofs tipHeight = .ok res :=
    ⟨_, evaluatePolicy_eq_ok.mpr ⟨h.agreement, rfl⟩⟩
  refine ⟨res, hres, (evaluatePolicy_satisfied hres).mpr ⟨policy.clauses_ne_nil, fun c hc => ⟨h.requires c hc, ?_⟩⟩⟩
  exact fun req hreq => reqSatisfiedThreshold_timely.mpr (h.attestors c hc req hreq)

theorem filled_of_satisfied {tipHeight : Nat} {res : PolicyEvaluationResult}
    (h : evaluatePolicy C a policy proofs tipHeight = .ok res) (hsat : res.outcome = .satisfied) :
    Filled C (canonicalHashHex C a) policy proofs := by
  have hmet := ((evaluatePolicy_satisfied h).mp hsat).2
  refine ⟨(evaluatePolicy_eq_ok.mp h).1, fun c hc => (hmet c hc).1, fun c hc req hreq => ?_⟩
  exact reqSatisfiedThreshold_timely.mp ((hmet c hc).2 req hreq)

end

/-- Releases are sound exactly when the policy does not release on what passes, or what passes is backed. -/
theorem release_sound_iff (a : AgreementObject) (policy : ProofPolicy) (proofs : List SettlementProof)
    (tipHeight : Nat) :
    ReleaseSound C a policy proofs tipHeight ↔
      (Filled C (canonicalHashHex C a) policy proofs → Backed C (canonicalHashHex C a) policy proofs) := by
  constructor
  · intro h hfilled c hc req hreq p hp hpass
    obtain ⟨res, hres, hsat⟩ := hfilled.satisfied tipHeight
    exact (h res hres hsat c hc req hreq).2 p hp (proofFits_timely.mpr hpass)
  · intro h res hres hsat c hc req hreq
    have hfilled := filled_of_satisfied hres hsat
    have hback := h hfilled c hc req hreq
    obtain ⟨vs, hquota, hall⟩ := hfilled.attestors c hc req hreq
    refine ⟨⟨vs, hquota, fun v hv => ?_⟩, fun p hp hfit => hback p hp (proofFits_timely.mp hfit)⟩
    obtain ⟨p, hp, rfl, hpass⟩ := hall v hv
    exact ⟨hpass.names.attestor, hback p hp hpass⟩

def singleDemand (agreementHash : String) (attestors : List ApprovedAttestor) (proofType attestor : String)
    (milestoneId : Option String) (deadline : Nat) : ProofPolicy where
  policyId := "demand"
  agreementHash := agreementHash
  requiredProofs := [⟨"demand", proofType, none, [attestor], .release, milestoneId, none⟩]
  noResponseRules := [⟨"deadline", deadline, .fundedAndNoRelease, .refund, none⟩]
  attestors := attestors

theorem singleDemand_filled {proofs : List SettlementProof} {agreementHash : String}
    {attestors : List ApprovedAttestor} {p q q' : SettlementProof} {ms : Option String} {deadline : Nat}
    (hp : p ∈ proofs) (hq : q ∈ proofs) (hq' : q' ∈ proofs) (hid : q.proofId = p.proofId)
    (hid' : q'.proofId = p.proofId) (hms : p.milestoneId = none ∨ ms = p.milestoneId)
    (hle : q'.attestationTime ≤ deadline)
    (hver : Verified C agreementHash (singleDemand agreementHash attestors p.proofType p.attestedBy ms deadline) q) :
    Filled C agreementHash (singleDemand agreementHash attestors p.proofType p.attestedBy ms deadline) proofs := by
  refine ⟨beq_self_eq_true _, fun c hc => ?_, fun c hc req hreq => ?_⟩
  · rw [List.mem_singleton.mp hc]
    exact List.cons_ne_nil _ _
  · rw [List.mem_singleton.mp hc] at hreq ⊢
    rw [List.mem_singleton.mp hreq]
    refine ⟨{p.attestedBy}, le_rfl, fun v hv => ⟨p, hp, (Finset.mem_singleton.mp hv).symm, ?_, ⟨q, hq, hver, hid⟩, ?_⟩⟩
    · exact ⟨rfl, List.mem_singleton_self _, hms.imp_right .inr⟩
    · rintro k ⟨⟩
      exact ⟨q', hq', hid', hle⟩

section

def zeroHashHex : String := encodeHex (ByteVec.zero 32).bytes

def saleAgreement : AgreementObject where
  agreementId := "sale"
  templateType := .milestoneSettlement
  parties := [⟨"buyer", "Buyer", "Qbuyer", none⟩, ⟨"seller", "Seller", "Qseller", none⟩]
  payer := "buyer"
  payee := "seller"
  totalAmount := 100000
  creationTime := 1
  releaseConditions := [{ mode := "proof" }]
  refundConditions := [{ refundAddress := "Qbuyer", timeoutHeight := 100 }]
  milestones := [⟨"m1", "First", 60000, "Qseller", "Qbuyer", zeroHashHex, 100, none⟩,
    ⟨"m2", "Second", 40000, "Qseller", "Qbuyer", zeroHashHex, 100, none⟩]
  documentHash := zeroHashHex

def saleHash : Hash32 := beVec 32 0x8c82ed06eed0950f031798f1c498c2b8188dfac9c551deac889a42b8a3a54f8c

def deliverySignature : SignedDigest where
  digest := beVec 32 0xc07d37c8ea59a223cdc045e25020366e360a4075773281c1499de4a0e158c33d
  signature := beVec 64 0xe6d793530d45931270d7ea1ebb58aa9b0a0161f4ffbf5b8c63427e25b880366c22bc61b0a49a3c1f67a9d573a65f7b8ddc9cd194d56419b65de26c56eaff0ac9

def saleCrypto : Crypto := signedCrypto deliverySignature

def carrier : ApprovedAttestor := ⟨"carrier", encodeHex keyOne.bytes⟩

def deliveryProof : SettlementProof where
  proofId := "p1"
  proofType := "delivered"
  agreementHash := encodeHex saleHash.bytes
  attestedBy := "carrier"
  attestationTime := 5
  signature := { pubkeyHex := encodeHex keyOne.bytes, signatureHex := encodeHex deliverySignature.signature.bytes }

theorem saleAgreement_sha256 : Sha2.sha256 (agreementCanonicalBytes saleAgreement) = saleHash := by decide +kernel

theorem saleAgreement_hash : canonicalHashHex saleCrypto saleAgreement = encodeHex saleHash.bytes := by
  rw [canonicalHashHex, ← saleAgreement_sha256]
  rfl

theorem deliveryProof_digest : Sha2.sha256 (settlementProofPayloadBytes deliveryProof) = deliverySignature.digest := by
  decide +kernel

variable {policy : ProofPolicy} {p : SettlementProof} {agreementHash : String}

theorem verified_of_signed {d : SignedDigest} (h : carrier ∈ policy.attestors) (hby : p.attestedBy = "carrier")
    (henvelope : p.signature = { pubkeyHex := encodeHex keyOne.bytes, signatureHex := encodeHex d.signature.bytes })
    (hdigest : Sha2.sha256 (settlementProofPayloadBytes p) = d.digest) :
    Verified (signedCrypto d) p.agreementHash policy p := by
  have hsig : (signedCrypto d).verifyPrehash keyOne.bytes ((signedCrypto d).sha256 (settlementProofPayloadBytes p))
      d.signature := decide_eq_true ⟨rfl, hdigest, rfl⟩
  unfold Verified checkProof verifySettlementProof verifyProofSignature
  simp only [bind_eq_ok, exists_unit, failIf_eq_ok, orFail_eq_ok, henvelope]
  refine ⟨?_, not_not_intro rfl, fun hall => hall carrier h ⟨hby.symm, rfl⟩, _, decodeHex_encodeHex _, ?_, _,
    decodeHex_encodeHex _, d.signature, dif_pos d.signature.length_eq, ?_, ?_⟩
  · simp [eqIgnoreAsciiCase]
  · simp [signedCrypto, keyCrypto]
  · simp [signedCrypto]
  · simp [hsig]

theorem deliveryProof_verified (h : carrier ∈ policy.attestors) :
    Verified saleCrypto (encodeHex saleHash.bytes) policy deliveryProof :=
  verified_of_signed h rfl rfl deliveryProof_digest

theorem satisfiedIds_singleton (h : Verified C agreementHash policy p) :
    satisfiedIds C agreementHash policy [p] = [p.proofId] := by
  have hok : (checkProof C agreementHash policy p).isOk := by
    rw [h]
    rfl
  simp only [satisfiedIds, List.filter_cons, hok, if_true, List.filter_nil, List.map_cons, List.map_nil]

theorem sale_satisfiedIds (h : carrier ∈ policy.attestors) :
    satisfiedIds saleCrypto (encodeHex saleHash.bytes) policy [deliveryProof] = ["p1"] :=
  satisfiedIds_singleton (deliveryProof_verified h)

theorem sale_evaluate (hhash : policy.agreementHash = encodeHex saleHash.bytes) (h : carrier ∈ policy.attestors)
    (tipHeight : Nat) :
    ∃ notes, evaluatePolicy saleCrypto saleAgreement policy [deliveryProof] tipHeight =
      .ok (if policy.milestones ≠ [] then evaluateMilestones policy [deliveryProof] ["p1"] tipHeight notes
        else evaluateWhole policy [deliveryProof] ["p1"] tipHeight notes) := by
  refine ⟨[deliveryProof].map (proofRule saleCrypto (encodeHex saleHash.bytes) policy),
    evaluatePolicy_eq_ok.mpr ⟨?_, ?_⟩⟩
  · rw [hhash, saleAgreement_hash]
    exact beq_self_eq_true _
  · rw [saleAgreement_hash, sale_satisfiedIds h]

def forgedInspection : SettlementProof :=
  { deliveryProof with
    proofType := "inspected"
    signature := { pubkeyHex := "", signatureHex := "" } }

theorem forgedInspection_not_verified (h : policy.attestors = [carrier]) :
    ¬Verified saleCrypto agreementHash policy forgedInspection := by
  intro hver
  unfold Verified checkProof verifySettlementProof at hver
  simp only [bind_eq_ok, exists_unit, failIf_eq_ok, h, List.forall_mem_singleton] at hver
  have hkey : carrier.pubkeyHex = "" := (not_not.mp hver.2.2.1).2
  have hdecoded := congrArg decodeHex hkey
  rw [carrier, decodeHex_encodeHex] at hdecoded
  exact absurd hdecoded (by decide)

def inspectionPolicy : ProofPolicy :=
  singleDemand (encodeHex saleHash.bytes) [carrier] "inspected" "carrier" none 5

theorem shared_identifier_releases :
    ¬ReleaseSound saleCrypto saleAgreement inspectionPolicy [deliveryProof, forgedInspection] 0 := by
  intro h
  have hgood : deliveryProof ∈ [deliveryProof, forgedInspection] := by simp
  have hforged : forgedInspection ∈ [deliveryProof, forgedInspection] := by simp
  have hfilled : Filled saleCrypto (encodeHex saleHash.bytes) inspectionPolicy [deliveryProof, forgedInspection] :=
    singleDemand_filled hforged hgood hgood rfl rfl (.inl rfl) le_rfl
      (deliveryProof_verified (List.mem_singleton_self _))
  rw [← saleAgreement_hash] at hfilled
  obtain ⟨res, hres, hsat⟩ := hfilled.satisfied 0
  obtain ⟨attestors, hcard, hall⟩ := (h res hres hsat inspectionPolicy.wholeClause (List.mem_singleton_self _) _
    (List.mem_singleton_self _)).1
  obtain ⟨v, hv⟩ := Finset.card_pos.mp (Nat.lt_of_lt_of_le Nat.zero_lt_one hcard)
  obtain ⟨-, p, hp, -, hvouch⟩ := hall v hv
  simp only [List.mem_cons, List.not_mem_nil, or_false] at hp
  rcases hp with rfl | rfl
  · exact absurd hvouch.names.type (by decide)
  · exact forgedInspection_not_verified rfl hvouch.verified

end

end IriumConsensus
