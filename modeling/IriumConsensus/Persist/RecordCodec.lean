import IriumConsensus.Lib.Codec
import IriumConsensus.Poawx.Admission

namespace IriumConsensus

open ByteCodec

/-- Reading past the end of a slice stops the node; the length checks before rule it out. -/
def sliceError : String := "range end index out of range for slice"

def PerRole.reader {α : Type} (r : Reader α) : Reader (PerRole α) := do
  let compute ← r
  let verify ← r
  let support ← r
  return ⟨compute, verify, support⟩

theorem PerRole.reader_reads {α : Type} {r : Reader α} {enc : α → Bytes} (h : ∀ a, Reads r (enc a) a) (p : PerRole α) :
    Reads (PerRole.reader r) (p.toList.flatMap enc) p := by
  simp only [PerRole.toList, List.flatMap_cons, List.flatMap_nil, List.append_nil]
  exact (h p.compute).bind ((h p.verify).bind ((h p.support).map _))

def TicketProof.reader : Reader TicketProof := do
  let networkId ← readU8 sliceError
  let targetHeight ← readU64 sliceError
  let roleId ← readU8 sliceError
  let minerPkh ← readVec 20 sliceError
  let epoch ← readU64 sliceError
  let expiryHeight ← readU64 sliceError
  let assignmentPublicKey ← readVec 33 sliceError
  let sybilWorkNonce ← readVec 32 sliceError
  let sybilWorkDigest ← readVec 32 sliceError
  let penaltyStatus ← readU8 sliceError
  let ticketDigest ← readVec 32 sliceError
  return ⟨networkId, targetHeight, roleId, minerPkh, epoch, expiryHeight, assignmentPublicKey, sybilWorkNonce,
    sybilWorkDigest, penaltyStatus, ticketDigest⟩

def TicketProof.deserialize (raw : Bytes) : Except String TicketProof :=
  readExactly ticketProofWire s!"ticket proof: bad len {raw.length} (want {ticketProofWire})" TicketProof.reader raw

theorem TicketProof.fixed : Fixed TicketProof.deserialize TicketProof.serialize ticketProofWire := by
  refine fixed_readExactly _ (fun t => ?_) fun t rest => ?_
  · simp [TicketProof.serialize, le64, ticketProofWire]
  · simp [TicketProof.reader, TicketProof.serialize, reader_pure, -bind_pure_comp]

def RoleCandidate.reader : Reader RoleCandidate := do
  let roleId ← readU8 sliceError
  let solverPkh ← readVec 20 sliceError
  let assignmentPublicKey ← readVec 33 sliceError
  let ticketDigest ← readVec 32 sliceError
  let penaltyStatus ← readU8 sliceError
  let assignmentProofDigest ← readVec 32 sliceError
  let dominanceWeight ← readU64 sliceError
  let penaltyWeight ← readU64 sliceError
  let effectiveScore ← readU64 sliceError
  let roleClaimDigest ← readVec 32 sliceError
  return ⟨roleId, solverPkh, assignmentPublicKey, ticketDigest, penaltyStatus, assignmentProofDigest,
    dominanceWeight, penaltyWeight, effectiveScore, roleClaimDigest⟩

def RoleCandidate.deserialize (raw : Bytes) : Except String RoleCandidate :=
  readExactly roleCandidateWire "role candidate: bad length" RoleCandidate.reader raw

theorem RoleCandidate.fixed : Fixed RoleCandidate.deserialize RoleCandidate.serialize roleCandidateWire := by
  refine fixed_readExactly _ (fun c => ?_) fun c rest => ?_
  · simp [RoleCandidate.serialize, le64, roleCandidateWire]
  · simp [RoleCandidate.reader, RoleCandidate.serialize, reader_pure, -bind_pure_comp]

def AssignmentProofV2.reader : Reader AssignmentProofV2 := do
  let version ← readU8 sliceError
  let networkId ← readU8 sliceError
  let targetHeight ← readU64 sliceError
  let roleId ← readU8 sliceError
  let solverPkh ← readVec 20 sliceError
  let assignmentPublicKey ← readVec 33 sliceError
  let ticketDigest ← readVec 32 sliceError
  let seed ← readVec 32 sliceError
  let vrfOutput ← readVec 32 sliceError
  let vrfProof ← readVec 81 sliceError
  let digest ← readVec 32 sliceError
  return ⟨version, networkId, targetHeight, roleId, solverPkh, assignmentPublicKey, ticketDigest, seed, vrfOutput,
    vrfProof, digest⟩

def AssignmentProofV2.deserialize (raw : Bytes) : Except String AssignmentProofV2 :=
  readExactly assignmentProofV2Wire "assignment v2: bad length" AssignmentProofV2.reader raw

theorem AssignmentProofV2.fixed :
    Fixed AssignmentProofV2.deserialize AssignmentProofV2.serialize assignmentProofV2Wire := by
  refine fixed_readExactly _ (fun p => ?_) fun p rest => ?_
  · simp [AssignmentProofV2.serialize, AssignmentProofV2.body, le64, assignmentProofV2Wire]
  · simp [AssignmentProofV2.reader, AssignmentProofV2.serialize, AssignmentProofV2.body, reader_pure, -bind_pure_comp]

def PuzzleSolutionV1.reader : Reader PuzzleSolutionV1 := do
  let mode ← readU8 sliceError
  let nonce ← readU64 sliceError
  let proofDigest ← readVec 32 sliceError
  return ⟨mode, nonce, proofDigest⟩

def PuzzleSolutionV1.deserialize (raw : Bytes) : Except String PuzzleSolutionV1 :=
  readExactly puzzleSolutionWire "puzzle solution: bad length" PuzzleSolutionV1.reader raw

theorem PuzzleSolutionV1.fixed : Fixed PuzzleSolutionV1.deserialize PuzzleSolutionV1.serialize puzzleSolutionWire := by
  refine fixed_readExactly _ (fun p => ?_) fun p rest => ?_
  · simp [PuzzleSolutionV1.serialize, le64, puzzleSolutionWire]
  · simp [PuzzleSolutionV1.reader, PuzzleSolutionV1.serialize, reader_pure, -bind_pure_comp]

def FinalityVoteV1.reader : Reader FinalityVoteV1 := do
  let version ← readU8 sliceError
  let networkId ← readU8 sliceError
  let targetHeight ← readU64 sliceError
  let blockHash ← readVec 32 sliceError
  let parentHash ← readVec 32 sliceError
  let committeeEpoch ← readU64 sliceError
  let memberPkh ← readVec 20 sliceError
  let memberPubkey ← readVec 33 sliceError
  let ticketDigest ← readVec 32 sliceError
  let voteType ← readU8 sliceError
  let signature ← readVec 64 sliceError
  return ⟨version, networkId, targetHeight, blockHash, parentHash, committeeEpoch, memberPkh, memberPubkey,
    ticketDigest, voteType, signature⟩

def FinalityVoteV1.deserialize (raw : Bytes) : Except String FinalityVoteV1 :=
  readExactly finalityVoteWire "finality vote: bad length" FinalityVoteV1.reader raw

theorem FinalityVoteV1.fixed : Fixed FinalityVoteV1.deserialize FinalityVoteV1.serialize finalityVoteWire := by
  refine fixed_readExactly _ (fun v => ?_) fun v rest => ?_
  · simp [FinalityVoteV1.serialize, le64, finalityVoteWire]
  · simp [FinalityVoteV1.reader, FinalityVoteV1.serialize, reader_pure, -bind_pure_comp]

def FraudProofV1.reader : Reader FraudProofV1 := do
  let version ← readU8 sliceError
  let kind ← readU8 sliceError
  let networkId ← readU8 sliceError
  let targetHeight ← readU64 sliceError
  let offenderPkh ← readVec 20 sliceError
  let reporterPkh ← readVec 20 sliceError
  let voteA ← readSlice finalityVoteWire sliceError FinalityVoteV1.deserialize
  let voteB ← readSlice finalityVoteWire sliceError FinalityVoteV1.deserialize
  return ⟨version, kind, networkId, targetHeight, offenderPkh, reporterPkh, voteA, voteB⟩

def FraudProofV1.deserialize (raw : Bytes) : Except String FraudProofV1 :=
  readExactly fraudProofV1Wire "fraud proof: bad length" FraudProofV1.reader raw

theorem FraudProofV1.fixed : Fixed FraudProofV1.deserialize FraudProofV1.serialize fraudProofV1Wire := by
  have hvote := FinalityVoteV1.fixed.slice sliceError
  refine fixed_readExactly _ (fun p => ?_) fun p rest => ?_
  · have ha := (FinalityVoteV1.fixed p.voteA).1
    have hb := (FinalityVoteV1.fixed p.voteB).1
    simp [FraudProofV1.serialize, le64, fraudProofV1Wire, ha, hb, finalityVoteWire]
  · simp only [FraudProofV1.reader, FraudProofV1.serialize, List.append_assoc, List.cons_append, List.nil_append,
      readU8_bind, readU64_bind, readVec_bind]
    rw [(hvote p.voteA).bind_apply, (hvote p.voteB).bind_apply, reader_pure]

def ProposerAssignmentV1.reader : Reader ProposerAssignmentV1 := do
  let round ← readU32 sliceError
  let proof ← readSlice assignmentProofV2Wire sliceError AssignmentProofV2.deserialize
  return ⟨round, proof⟩

def ProposerAssignmentV1.deserialize (raw : Bytes) : Except String ProposerAssignmentV1 :=
  readExactly proposerAssignmentV1Wire
    s!"proposer assignment: bad wire len {raw.length} (want {proposerAssignmentV1Wire})" ProposerAssignmentV1.reader raw

theorem ProposerAssignmentV1.fixed :
    Fixed ProposerAssignmentV1.deserialize ProposerAssignmentV1.serialize proposerAssignmentV1Wire := by
  refine fixed_readExactly _ (fun a => ?_) fun a => ?_
  · have hproof := (AssignmentProofV2.fixed a.proof).1
    simp [ProposerAssignmentV1.serialize, le32, proposerAssignmentV1Wire, hproof, assignmentProofV2Wire]
  · exact (readU32_reads sliceError a.round).bind ((AssignmentProofV2.fixed.slice sliceError a.proof).map _)

def ProposerRegistrationV1.reader : Reader ProposerRegistrationV1 := do
  let vrfPubkey ← readVec 33 sliceError
  let anchorHeight ← readU64 sliceError
  let sybilNonce ← readVec 32 sliceError
  let sybilDigest ← readVec 32 sliceError
  let signature ← readVec 64 sliceError
  return ⟨vrfPubkey, anchorHeight, sybilNonce, sybilDigest, signature⟩

def ProposerRegistrationV1.deserialize (raw : Bytes) : Except String ProposerRegistrationV1 :=
  readExactly proposerRegistrationV1Wire
    s!"proposer registration: bad wire len {raw.length} (want {proposerRegistrationV1Wire})"
    ProposerRegistrationV1.reader raw

theorem ProposerRegistrationV1.fixed :
    Fixed ProposerRegistrationV1.deserialize ProposerRegistrationV1.serialize proposerRegistrationV1Wire := by
  refine fixed_readExactly _ (fun r => ?_) fun r rest => ?_
  · simp [ProposerRegistrationV1.serialize, ProposerRegistrationV1.body, le64, proposerRegistrationV1Wire]
  · simp [ProposerRegistrationV1.reader, ProposerRegistrationV1.serialize, ProposerRegistrationV1.body, reader_pure,
      -bind_pure_comp]

def roleRewardWire : Nat := 60

/-- The `RoleReward` of an extension: the payout keys of the contributors. -/
def roleRewardDeserialize (raw : Bytes) : Except String (PerRole Pkh) :=
  readExactly roleRewardWire s!"role reward bad length: {raw.length} != {roleRewardWire}"
    (PerRole.reader (readVec 20 sliceError)) raw

theorem roleReward_fixed :
    Fixed roleRewardDeserialize (fun r => r.toList.flatMap ByteVec.bytes) roleRewardWire :=
  fixed_readExactly _ (fun r => by simp [PerRole.toList, roleRewardWire])
    fun r => PerRole.reader_reads (readVec_reads sliceError) r

def admissionCommitmentWire : Nat := 124

namespace AdmissionCommitmentV1

def reader : Reader AdmissionCommitmentV1 := do
  let version ← readU8 sliceError
  rejectIf (version ≠ 1) s!"admission commitment: unknown version {version}"
  let networkId ← readU8 sliceError
  let targetHeight ← readU64 sliceError
  let commitHeight ← readU64 sliceError
  let seed ← readVec 32 sliceError
  let candidateAdmissionRoot ← readVec 32 sliceError
  let candidateCount ← readU16 sliceError
  let windowId ← readU64 sliceError
  let digest ← readVec 32 sliceError
  rejectIf (maxCommittedCandidates < candidateCount) "admission commitment: candidate count over cap"
  return ⟨version, networkId, targetHeight, commitHeight, seed, candidateAdmissionRoot, candidateCount, windowId, digest⟩

def deserialize (raw : Bytes) : Except String AdmissionCommitmentV1 :=
  readExactly admissionCommitmentWire "admission commitment: bad length" reader raw

structure Fits (a : AdmissionCommitmentV1) : Prop where
  version : a.version = 1
  candidateCount : a.candidateCount ≤ maxCommittedCandidates

instance (a : AdmissionCommitmentV1) : Decidable a.Fits :=
  decidable_of_iff (_ ∧ _) ⟨fun h => ⟨h.1, h.2⟩, fun h => ⟨h.version, h.candidateCount⟩⟩

theorem serialize_length (a : AdmissionCommitmentV1) : a.serialize.length = admissionCommitmentWire := by
  simp [serialize, body, le64, le16, admissionCommitmentWire]

variable {a : AdmissionCommitmentV1}

theorem deserialize_serialize (h : a.Fits) : deserialize a.serialize = .ok a := by
  have hversion := rejectIf_reads (not_not.mpr h.version) s!"admission commitment: unknown version {a.version}"
  have hcount := rejectIf_reads (UInt16.not_lt.mpr h.candidateCount) "admission commitment: candidate count over cap"
  refine Reads.readExactly ?_ a.serialize_length _
  rw [serialize, body]
  simp only [List.append_assoc]
  refine (readU8_reads _ a.version).bind (hversion.bind ((readU8_reads _ a.networkId).bind ?_))
  refine (readU64_reads _ a.targetHeight).bind ((readU64_reads _ a.commitHeight).bind ?_)
  refine (readVec_reads _ a.seed).bind ((readVec_reads _ a.candidateAdmissionRoot).bind ?_)
  refine (readU16_reads _ a.candidateCount).bind ((readU64_reads _ a.windowId).bind ?_)
  exact (readVec_reads _ a.digest).bind_nil (hcount.map _)

theorem fits_of_deserialize {raw : Bytes} (h : deserialize raw = .ok a) : a.Fits := by
  refine Yields.readExactly (P := Fits) ?_ h
  refine yields_bind fun version => (rejectIf_yields _ _).bind fun _ hversion => ?_
  refine yields_bind fun _ => yields_bind fun _ => yields_bind fun _ => yields_bind fun _ => yields_bind fun _ => ?_
  refine yields_bind fun count => yields_bind fun _ => yields_bind fun _ => (rejectIf_yields _ _).bind fun _ hcount => ?_
  exact yields_pure ⟨not_not.mp hversion, UInt16.not_lt.mp hcount⟩

end AdmissionCommitmentV1

def readOptionalHash (truncated : String) (badFlag : UInt8 → String) : Reader (Option Hash32) := do
  let flag ← readU8 sliceError
  if flag = 0 then return none
  else if flag = 1 then return some (← readVec 32 truncated)
  else throw (badFlag flag)

def serializeOptionalHash (x : Option Hash32) : Bytes :=
  match x with
  | some h => 1 :: h.bytes
  | none => [0]

theorem readOptionalHash_reads (truncated : String) (badFlag : UInt8 → String) (x : Option Hash32) :
    Reads (readOptionalHash truncated badFlag) (serializeOptionalHash x) x := by
  cases x with
  | none => exact fun _ => rfl
  | some h => exact (readU8_reads sliceError 1).bind ((readVec_reads truncated h).map some)

namespace PoawxRoleClaim

def fixedSize : Nat := 118

def reader : Reader PoawxRoleClaim := do
  let roleId ← readU8 sliceError
  let laneId ← readU8 sliceError
  let solverPkh ← readVec 20 sliceError
  let nonce ← readVec 32 sliceError
  let secret ← readVec 32 sliceError
  let claimDigest ← readVec 32 sliceError
  let commitmentHash ← readOptionalHash "role claim: commitment flag set but bytes truncated"
    fun flag => s!"role claim: bad commitment flag {flag}"
  return ⟨roleId, laneId, solverPkh, nonce, secret, claimDigest, commitmentHash⟩

def deserialize (raw : Bytes) : Except String PoawxRoleClaim :=
  if raw.length < fixedSize + 1 then .error s!"role claim too short: {raw.length} < {fixedSize + 1}"
  else
    readAll reader
      (fun rest => s!"role claim: trailing bytes ({raw.length - rest.length} parsed, {raw.length} given)") raw

theorem serialize_eq (c : PoawxRoleClaim) :
    c.serialize = [c.roleId, c.laneId] ++ c.solverPkh.bytes ++ c.nonce.bytes ++ c.secret.bytes ++ c.claimDigest.bytes ++
      serializeOptionalHash c.commitmentHash := rfl

theorem serialize_length (c : PoawxRoleClaim) :
    fixedSize + 1 ≤ c.serialize.length ∧ c.serialize.length ≤ fixedSize + 33 := by
  rw [serialize_eq]
  cases c.commitmentHash <;> simp [serializeOptionalHash, fixedSize]

theorem deserialize_serialize (c : PoawxRoleClaim) : deserialize c.serialize = .ok c := by
  have hlen := c.serialize_length.1
  rw [deserialize, if_neg (by omega)]
  refine Reads.readAll (fun rest => ?_) _
  have hhash := readOptionalHash_reads "role claim: commitment flag set but bytes truncated"
    (fun flag => s!"role claim: bad commitment flag {flag}") c.commitmentHash
  simp only [reader, serialize_eq, List.append_assoc, List.cons_append, List.nil_append, readU8_bind, readVec_bind]
  rw [hhash.bind_apply, reader_pure]

end PoawxRoleClaim

namespace Delegation

def wireSize : Nat := 226

def reader : Reader Delegation := do
  let delegVersion ← readU8 sliceError
  let networkId ← readU8 sliceError
  let minerPubkey ← readVec 33 sliceError
  let poolPubkey ← readVec 33 sliceError
  let workerTag ← readVec 32 sliceError
  let expiryHeight ← readU64 sliceError
  let feeBps ← readU16 sliceError
  let feePkh ← readVec 20 sliceError
  let delegNonce ← readVec 32 sliceError
  let delegationSig ← readVec 64 sliceError
  return ⟨delegVersion, networkId, minerPubkey, poolPubkey, workerTag, expiryHeight, feeBps, feePkh, delegNonce,
    delegationSig⟩

def deserialize (raw : Bytes) : Except String Delegation :=
  if raw.length < wireSize then .error s!"delegation too short: {raw.length} < {wireSize}"
  else (reader raw).map Prod.fst

theorem serialize_length (d : Delegation) : d.serialize.length = wireSize := by
  simp [serialize, body, le64, le16, wireSize]

theorem deserialize_serialize (d : Delegation) : deserialize d.serialize = .ok d := by
  rw [deserialize, if_neg (not_lt.mpr d.serialize_length.ge)]
  refine Reads.decode fun rest => ?_
  simp [reader, serialize, body, reader_pure, -bind_pure_comp]

end Delegation

/-- What follows the header of a candidate set or of a finality proof: a count, within a cap, of records that take all
of the rest. -/
def readCounted {α : Type} (cap wire : Nat) (truncated tooMany badLength : String)
    (decode : Bytes → Except String α) : Reader (List α) := do
  let count ← readLen 2 truncated
  rejectIf (cap < count) tooMany
  requireRest (count * wire) badLength
  readMany (readSlice wire sliceError decode) count

section

variable {α : Type} {cap wire : Nat} {decode : Bytes → Except String α} {enc : α → Bytes}

theorem readCounted_apply (truncated tooMany badLength : String) (hcap : cap < 65536) (hd : Fixed decode enc wire)
    {xs : List α} (hxs : xs.length ≤ cap) :
    readCounted cap wire truncated tooMany badLength decode (leList 2 xs.length ++ xs.flatMap enc) = .ok (xs, []) := by
  have hcount := readLen_reads (w := 2) (hxs.trans_lt hcap) truncated
  have hmany : Reads (readMany (readSlice wire sliceError decode) xs.length) (xs.flatMap enc) xs :=
    readMany_reads fun x _ => hd.slice sliceError x
  have hall := hmany []
  rw [List.append_nil] at hall
  rw [readCounted, hcount.bind_apply, rejectIf_bind (not_lt.mpr hxs), requireRest_bind (hd.flatMap_length xs), hall]

theorem readCounted_yields (truncated tooMany badLength : String) :
    Yields (readCounted cap wire truncated tooMany badLength decode) fun xs => xs.length ≤ cap := by
  refine yields_bind fun n => (rejectIf_yields _ _).bind fun _ hn => yields_bind fun _ => ?_
  exact ((yields_true _).readMany n).mono fun xs hxs => hxs.1.trans_le (not_lt.mp hn)

end

namespace CandidateSet

def reader : Reader CandidateSet := do
  let networkId ← readU8 "candidate set: truncated header"
  let targetHeight ← readU64 "candidate set: truncated header"
  let seed ← readVec 32 "candidate set: truncated header"
  let candidates ← readCounted maxCandidates roleCandidateWire "candidate set: truncated header"
    "candidate set: too many candidates" "candidate set: bad length" RoleCandidate.deserialize
  return ⟨networkId, targetHeight, seed, candidates⟩

def deserialize (raw : Bytes) : Except String CandidateSet := (reader raw).map Prod.fst

variable {cs : CandidateSet}

theorem deserialize_serialize (h : cs.candidates.length ≤ maxCandidates) :
    deserialize cs.serialize = .ok cs := by
  have hcounted := readCounted_apply "candidate set: truncated header" "candidate set: too many candidates"
    "candidate set: bad length" (by decide) RoleCandidate.fixed h
  simp only [deserialize, reader, serialize, List.append_assoc, List.cons_append, List.nil_append, readU8_bind,
    readU64_bind, readVec_bind]
  rw [reader_bind_of_ok hcounted]
  rfl

theorem fits_of_deserialize {raw : Bytes} (h : deserialize raw = .ok cs) :
    cs.candidates.length ≤ maxCandidates := by
  refine Yields.decode (P := fun cs : CandidateSet => cs.candidates.length ≤ maxCandidates) ?_ h
  refine yields_bind fun _ => yields_bind fun _ => yields_bind fun _ => ?_
  exact (readCounted_yields _ _ _).bind fun xs hxs => yields_pure hxs

end CandidateSet

namespace FinalityProofV1

def reader : Reader FinalityProofV1 := do
  let version ← readU8 "finality proof: truncated header"
  let networkId ← readU8 "finality proof: truncated header"
  let targetHeight ← readU64 "finality proof: truncated header"
  let blockHash ← readVec 32 "finality proof: truncated header"
  let parentHash ← readVec 32 "finality proof: truncated header"
  let committeeEpoch ← readU64 "finality proof: truncated header"
  let thresholdNum ← readU16 "finality proof: truncated header"
  let thresholdDen ← readU16 "finality proof: truncated header"
  let votes ← readCounted finalityMaxVotes finalityVoteWire "finality proof: truncated header"
    "finality proof: too many votes" "finality proof: bad length" FinalityVoteV1.deserialize
  return ⟨version, networkId, targetHeight, blockHash, parentHash, committeeEpoch, thresholdNum, thresholdDen, votes⟩

def deserialize (raw : Bytes) : Except String FinalityProofV1 := (reader raw).map Prod.fst

variable {p : FinalityProofV1}

theorem deserialize_serialize (h : p.votes.length ≤ finalityMaxVotes) :
    deserialize p.serialize = .ok p := by
  have hcounted := readCounted_apply "finality proof: truncated header" "finality proof: too many votes"
    "finality proof: bad length" (by decide) FinalityVoteV1.fixed h
  simp only [deserialize, reader, serialize, List.append_assoc, List.cons_append, List.nil_append, readU8_bind,
    readU16_bind, readU64_bind, readVec_bind]
  rw [reader_bind_of_ok hcounted]
  rfl

theorem fits_of_deserialize {raw : Bytes} (h : deserialize raw = .ok p) :
    p.votes.length ≤ finalityMaxVotes := by
  refine Yields.decode (P := fun p : FinalityProofV1 => p.votes.length ≤ finalityMaxVotes) ?_ h
  refine yields_bind fun _ => yields_bind fun _ => yields_bind fun _ => yields_bind fun _ => yields_bind fun _ => ?_
  refine yields_bind fun _ => yields_bind fun _ => yields_bind fun _ => ?_
  exact (readCounted_yields _ _ _).bind fun xs hxs => yields_pure hxs

end FinalityProofV1

end IriumConsensus
