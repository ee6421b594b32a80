import IriumConsensus.Settlement.Irrevocable
import IriumConsensus.Settlement.Submission

namespace IriumConsensus

open ByteCodec Checks

structure ProofCreateRequest where
  agreementHash : String
  proofType : String
  attestedBy : String
  signingKeyHex : String
  pubkeyHex : String
  milestoneId : Option String := none
  evidenceSummary : Option String := none
  evidenceHash : Option String := none
  proofId : Option String := none
  timestamp : Option Nat := none
  expiresAtHeight : Option Nat := none
  proofKind : Option String := none
  referenceId : Option String := none

/-- An answer of the wallet API that is no result. -/
structure ApiError where
  status : Nat
  code : String
  message : String

/-- Which strings are secret keys, and how they sign. -/
structure Signer where
  secretKey : Bytes → Except String Unit
  signPrehash : Bytes → Hash32 → Except String Sig64

section

variable (C : Crypto) (signer : Signer) (clock : Nat) (body : ProofCreateRequest)

/-- The proof before it is signed; the time is that of the request, or else the seconds of the clock. -/
def ProofCreateRequest.unsigned : SubmittedProof where
  proofId := body.proofId.getD ("prf-" ++ encodeHex ((C.sha256 (utf8 (body.proofType ++ body.agreementHash ++
    toString (body.timestamp.getD clock)))).bytes.take 8))
  proofType := body.proofType
  agreementHash := body.agreementHash
  milestoneId := body.milestoneId
  attestedBy := body.attestedBy
  attestationTime := body.timestamp.getD clock
  evidenceHash := body.evidenceHash
  evidenceSummary := body.evidenceSummary
  signature := { pubkeyHex := body.pubkeyHex, signatureHex := "" }
  expiresAtHeight := body.expiresAtHeight
  typedPayload := body.proofKind.map fun kind => { proofKind := kind, referenceId := body.referenceId }

def proofCreate : Except ApiError SubmittedProof := do
  let keyBytes ← orFail (decodeHex body.signingKeyHex)
    (⟨400, "invalid_key", "signing_key_hex must be 32-byte hex"⟩ : ApiError)
  (signer.secretKey keyBytes).mapError fun e => (⟨400, "invalid_key", "invalid signing key: " ++ e⟩ : ApiError)
  let proof := body.unsigned C clock
  let payloadDigest := C.sha256 (settlementProofPayloadBytes proof.toSettlementProof)
  let sig ← (signer.signPrehash keyBytes payloadDigest).mapError fun e =>
    (⟨500, "sign_error", "sign proof: " ++ e⟩ : ApiError)
  return { proof with
    signature := { proof.signature with signatureHex := encodeHex sig.bytes }
    payloadHash := encodeHex payloadDigest.bytes }

end

section

variable {C : Crypto} {signer : Signer} {clock : Nat} {body : ProofCreateRequest} {p : SubmittedProof}

theorem proofCreate_eq_ok : proofCreate C signer clock body = .ok p ↔
    ∃ key, decodeHex body.signingKeyHex = some key ∧ signer.secretKey key = .ok () ∧
      ∃ sig, signer.signPrehash key (C.sha256 (settlementProofPayloadBytes
          (body.unsigned C clock).toSettlementProof)) = .ok sig ∧
        { body.unsigned C clock with
          signature := { pubkeyHex := body.pubkeyHex, signatureHex := encodeHex sig.bytes }
          payloadHash := encodeHex (C.sha256 (settlementProofPayloadBytes
            (body.unsigned C clock).toSettlementProof)).bytes } = p := by
  simp only [proofCreate, bind_eq_ok, orFail_eq_ok, mapError_eq_ok, exists_unit, pure_eq_ok]
  rfl

theorem proofCreate_attestationTime (h : proofCreate C signer clock body = .ok p) :
    p.attestationTime = body.timestamp.getD clock := by
  obtain ⟨-, -, -, -, -, rfl⟩ := proofCreate_eq_ok.mp h
  rfl

/-- The release requirements are met when the proofs under these identifiers count. -/
def Clause.MetBy (c : Clause) (proofs : List SettlementProof) (ids : List String) : Prop :=
  c.releaseReqs ≠ [] ∧ ∀ req ∈ c.releaseReqs, reqSatisfiedThreshold req proofs ids

theorem Clause.MetBy.mono {c : Clause} {proofs : List SettlementProof} {ids ids' : List String}
    (h : c.MetBy proofs ids) (hsub : ∀ id ∈ ids, id ∈ ids') : c.MetBy proofs ids' :=
  ⟨h.1, fun req hreq => reqSatisfiedThreshold_mono (fun q hq hid hnames => ⟨q, hq, hsub _ hid, hnames, rfl⟩)
    (h.2 req hreq)⟩

/-- The proof is in the list, and no other one has its identifier. -/
structure OwnId (p : SettlementProof) (proofs : List SettlementProof) : Prop where
  mem : p ∈ proofs
  only : ∀ q ∈ proofs, q.proofId = p.proofId → q = p

/-- Created at this height, the proof counts in an evaluation if that is before every deadline, and does not count for
a clause whose deadline was before: a policy that it completes is satisfied then, and one that lacks it is not. -/
def CountsByHeight (C : Crypto) (a : AgreementObject) (attestors : List ApprovedAttestor) (p : SettlementProof)
    (height : Nat) : Prop :=
  ∀ policy : ProofPolicy, policy.attestors = attestors →
    eqIgnoreAsciiCase policy.agreementHash (canonicalHashHex C a) → ∀ proofs, OwnId p proofs → ∀ tipHeight,
      let ids := satisfiedIds C (canonicalHashHex C a) policy proofs
      ∃ res, evaluatePolicy C a policy proofs tipHeight = .ok res ∧
        ((∀ c ∈ policy.clauses, (∀ D ∈ c.cutoff, height < D) ∧ c.MetBy proofs (p.proofId :: c.timely proofs ids)) →
          res.outcome = .satisfied) ∧
        ((∃ c ∈ policy.clauses, (∃ D ∈ c.cutoff, D < height) ∧
            ¬c.MetBy proofs ((c.timely proofs ids).filter fun id => id ≠ p.proofId)) →
          res.outcome ≠ .satisfied)

theorem verified_congr {agreementHash : String} {policy policy' : ProofPolicy}
    (h : policy'.attestors = policy.attestors) (p : SettlementProof) :
    Verified C agreementHash policy' p ↔ Verified C agreementHash policy p := by
  unfold Verified checkProof verifySettlementProof
  rw [h]

variable {a : AgreementObject} {policy : ProofPolicy} {q : SettlementProof} {height : Nat}

theorem countsByHeight_of_time (hver : Verified C (canonicalHashHex C a) policy q) (hlow : height ≤ q.attestationTime)
    (hhigh : q.attestationTime ≤ height + 1) : CountsByHeight C a policy.attestors q height := by
  intro policy' hattestors hhash proofs hown tipHeight
  obtain ⟨res, hres⟩ : ∃ res, evaluatePolicy C a policy' proofs tipHeight = .ok res :=
    ⟨_, evaluatePolicy_eq_ok.mpr ⟨hhash, rfl⟩⟩
  refine ⟨res, hres, fun hall => ?_, ?_⟩
  · refine (evaluatePolicy_satisfied hres).mpr ⟨policy'.clauses_ne_nil, fun c hc => ?_⟩
    obtain ⟨hbefore, hmet⟩ := hall c hc
    refine hmet.mono fun id hid => ?_
    rcases List.mem_cons.mp hid with rfl | hid
    · refine mem_timelyIds.mpr ⟨mem_satisfiedIds.mpr ⟨q, hown.mem, (verified_congr hattestors q).mpr hver, rfl⟩, ?_⟩
      intro k hk
      have hlt := hbefore k hk
      exact ⟨q, hown.mem, rfl, by omega⟩
    · exact hid
  · rintro ⟨c, hc, ⟨D, hD, hlt⟩, hunmet⟩ hsat
    have hmet : c.MetBy proofs _ := ((evaluatePolicy_satisfied hres).mp hsat).2 c hc
    refine hunmet (hmet.mono fun id hid => List.mem_filter.mpr ⟨hid, decide_eq_true fun heq => ?_⟩)
    obtain ⟨q', hq', hid', hle⟩ := (mem_timelyIds.mp hid).2 D hD
    rw [hown.only q' hq' (hid'.trans heq)] at hle
    omega

theorem CountsByHeight.time (hver : Verified C (canonicalHashHex C a) policy q)
    (h : CountsByHeight C a policy.attestors q height) (D : Nat) :
    (height < D → q.attestationTime ≤ D) ∧ (D < height → ¬q.attestationTime ≤ D) := by
  obtain ⟨demand, hdemand⟩ : ∃ d, d = singleDemand (canonicalHashHex C a) policy.attestors q.proofType q.attestedBy
    q.milestoneId D := ⟨_, rfl⟩
  have hclauses : demand.clauses = [demand.wholeClause] := by rw [hdemand]; rfl
  have hreqs : demand.wholeClause.releaseReqs =
      [⟨"demand", q.proofType, none, [q.attestedBy], .release, q.milestoneId, none⟩] := by rw [hdemand]; rfl
  have hcutoff : demand.wholeClause.cutoff = some D := by rw [hdemand]; rfl
  have hmem : q ∈ [q] := List.mem_singleton_self q
  have hfits : ∀ ids, demand.wholeClause.MetBy [q] ids ↔ q.proofId ∈ ids := by
    intro ids
    rw [Clause.MetBy, hreqs, List.forall_mem_singleton, reqSatisfiedThreshold_iff]
    refine ⟨fun hmet => ?_, fun hid => ⟨List.cons_ne_nil _ _, Finset.card_pos.mpr ⟨q.attestedBy, ?_⟩⟩⟩
    · obtain ⟨v, hv⟩ := Finset.card_pos.mp (Nat.lt_of_lt_of_le Nat.zero_lt_one hmet.2)
      obtain ⟨q', hq', hfit, -⟩ := mem_voters.mp hv
      rw [List.mem_singleton.mp hq'] at hfit
      exact (proofFits_iff.mp hfit).1
    · exact mem_voters.mpr ⟨q, hmem, proofFits_iff.mpr ⟨hid, rfl, List.mem_singleton_self _, .inr (.inr rfl)⟩, rfl⟩
  have hhash : eqIgnoreAsciiCase demand.agreementHash (canonicalHashHex C a) := by
    rw [hdemand]
    exact beq_self_eq_true _
  have hver' : Verified C (canonicalHashHex C a) demand q := (verified_congr (by rw [hdemand]; rfl) q).mpr hver
  obtain ⟨res, hres, hsat, hunsat⟩ := h demand (by rw [hdemand]; rfl) hhash [q]
    ⟨hmem, fun q' hq' _ => List.mem_singleton.mp hq'⟩ 0
  rw [hclauses] at hsat hunsat
  constructor
  · intro hlt
    have hfilled := filled_of_satisfied hres (hsat fun c hc => by
      rw [List.mem_singleton.mp hc, hcutoff, hfits]
      exact ⟨fun k hk => Option.some.inj hk ▸ hlt, List.mem_cons_self⟩)
    obtain ⟨vs, hquota, hall⟩ := hfilled.attestors _ (hclauses ▸ List.mem_singleton_self _) _
      (hreqs ▸ List.mem_singleton_self _)
    obtain ⟨v, hv⟩ := Finset.card_pos.mp (Nat.lt_of_lt_of_le Nat.zero_lt_one hquota)
    obtain ⟨_, -, -, hpass⟩ := hall v hv
    obtain ⟨q', hq', -, hle⟩ := hpass.inTime D hcutoff
    rwa [List.mem_singleton.mp hq'] at hle
  · intro hlt hle
    rw [hdemand] at hver'
    obtain ⟨res', hres', hsat'⟩ := (singleDemand_filled hmem hmem hmem rfl rfl (.inr rfl) hle hver').satisfied 0
    rw [← hdemand, hres] at hres'
    obtain rfl : res = res' := Except.ok.inj hres'
    refine hunsat ⟨_, List.mem_singleton_self _, ⟨D, hcutoff, hlt⟩, fun hmet => ?_⟩ hsat'
    simpa using (List.mem_filter.mp ((hfits _).mp hmet)).2

/-- A proof of the wallet counts by the height at which it was created exactly if its time is that height or the next
one, which a clock in seconds is not. -/
theorem created_counts_iff (h : proofCreate C signer clock body = .ok p)
    (hver : Verified C (canonicalHashHex C a) policy p.toSettlementProof) (height : Nat) :
    CountsByHeight C a policy.attestors p.toSettlementProof height ↔
      height ≤ body.timestamp.getD clock ∧ body.timestamp.getD clock ≤ height + 1 := by
  rw [← proofCreate_attestationTime h]
  refine ⟨fun hcounts => ?_, fun ⟨hlow, hhigh⟩ => countsByHeight_of_time hver hlow hhigh⟩
  refine ⟨?_, (hcounts.time hver (height + 1)).1 (Nat.lt_succ_self _)⟩
  by_contra hlow
  exact (hcounts.time hver (height - 1)).2 (by omega) (by omega)

end

section

def carrierSigner (d : SignedDigest) : Signer where
  secretKey key := if key = (beVec 32 1).bytes then .ok () else .error "crypto error"
  signPrehash _ digest := if digest = d.digest then .ok d.signature else .error "signature error"

def carrierRequest (timestamp : Option Nat) : ProofCreateRequest where
  agreementHash := encodeHex saleHash.bytes
  proofType := "delivered"
  attestedBy := "carrier"
  signingKeyHex := encodeHex (beVec 32 1).bytes
  pubkeyHex := encodeHex keyOne.bytes
  proofId := some "p1"
  timestamp := timestamp

def attestedAt (time : Nat) (d : SignedDigest) : SettlementProof :=
  { deliveryProof with
    attestationTime := time
    signature := { pubkeyHex := encodeHex keyOne.bytes, signatureHex := encodeHex d.signature.bytes } }

theorem carrier_creates {d : SignedDigest} (timestamp : Option Nat) (clock : Nat)
    (hdigest : Sha2.sha256 (settlementProofPayloadBytes (attestedAt (timestamp.getD clock) d)) = d.digest) :
    ∃ p, proofCreate (signedCrypto d) (carrierSigner d) clock (carrierRequest timestamp) = .ok p ∧
      p.toSettlementProof = attestedAt (timestamp.getD clock) d := by
  have hsecret : (carrierSigner d).secretKey (beVec 32 1).bytes = .ok () := by simp [carrierSigner]
  have hsign : (carrierSigner d).signPrehash (beVec 32 1).bytes ((signedCrypto d).sha256
      (settlementProofPayloadBytes ((carrierRequest timestamp).unsigned (signedCrypto d) clock).toSettlementProof)) =
        .ok d.signature := if_pos hdigest
  exact ⟨_, proofCreate_eq_ok.mpr ⟨_, decodeHex_encodeHex _, hsecret, d.signature, hsign, rfl⟩, rfl⟩

theorem created_counts_iff_atHeight :
    CountsByHeight saleCrypto saleAgreement deliveryPolicy.attestors deliveryProof 5 := by
  have hdelivery : attestedAt 5 deliverySignature = deliveryProof := rfl
  have hdigest : Sha2.sha256 (settlementProofPayloadBytes (attestedAt 5 deliverySignature)) =
      deliverySignature.digest := by
    rw [hdelivery]
    exact deliveryProof_digest
  obtain ⟨p, hcreate, hp⟩ := carrier_creates (some 5) 1767583931 hdigest
  rw [Option.getD_some, hdelivery] at hp
  have hver : Verified saleCrypto (canonicalHashHex saleCrypto saleAgreement) deliveryPolicy p.toSettlementProof := by
    rw [hp, saleAgreement_hash]
    exact deliveryProof_verified (List.mem_singleton_self _)
  have h := (created_counts_iff hcreate hver 5).mpr (by decide)
  rwa [hp] at h

def clockSignature : SignedDigest where
  digest := beVec 32 0xd082fa83423b950d72327eae40c82b2b3f53822df0b481ad0ebe9cecf47cba6e
  signature := beVec 64 0xd1e88bdb62ad6f6f21489687735dd4ebae31a38359e71548688f14082784fe6b73f29bb7ebf2eb52b486b3fb18e7324710b910dac3516e30dbe80acb22234075

/-- The carrier attests the delivery at height 7, before the deadline at 10: the seconds of the clock are after it. -/
theorem clock_stamp_is_late :
    ∃ p res, proofCreate (signedCrypto clockSignature) (carrierSigner clockSignature) 1767583931
        (carrierRequest none) = .ok p ∧
      Verified (signedCrypto clockSignature) (encodeHex saleHash.bytes) deliveryPolicy p.toSettlementProof ∧
      deliveryPolicy.wholeClause.cutoff = some 10 ∧
      evaluatePolicy (signedCrypto clockSignature) saleAgreement deliveryPolicy [p.toSettlementProof] 7 = .ok res ∧
      res.outcome = .unsatisfied := by
  have hdigest : Sha2.sha256 (settlementProofPayloadBytes (attestedAt 1767583931 clockSignature)) =
      clockSignature.digest := by decide +kernel
  obtain ⟨p, hcreate, hp⟩ := carrier_creates none 1767583931 hdigest
  have hver : Verified (signedCrypto clockSignature) (encodeHex saleHash.bytes) deliveryPolicy p.toSettlementProof := by
    rw [hp]
    exact verified_of_signed (List.mem_singleton_self _) rfl rfl hdigest
  have hhash : canonicalHashHex (signedCrypto clockSignature) saleAgreement = encodeHex saleHash.bytes := by
    rw [canonicalHashHex, ← saleAgreement_sha256]
    rfl
  have hids := satisfiedIds_singleton hver
  refine ⟨p, _, hcreate, hver, rfl, evaluatePolicy_eq_ok.mpr ⟨?_, rfl⟩, ?_⟩
  · rw [hhash]
    exact beq_self_eq_true _
  · rw [hhash, hids, hp]
    rfl

end

end IriumConsensus
