import IriumConsensus.Persist.ReceiptCodec
import IriumConsensus.PoolCoinbase

namespace IriumConsensus

open ByteCodec

namespace Pool

section

def serializeRoleReward (r : PerRole Pkh) : Bytes := r.compute.bytes ++ r.verify.bytes ++ r.support.bytes

def serializeClaim (c : PoawxRoleClaim) : Bytes :=
  [c.roleId] ++ [c.laneId] ++ c.solverPkh.bytes ++ c.nonce.bytes ++ c.secret.bytes ++ c.claimDigest.bytes ++
    match c.commitmentHash with
    | some commitment => [1] ++ commitment.bytes
    | none => [0]

def serializeTicketProof (t : TicketProof) : Bytes :=
  [t.networkId] ++ le64 t.targetHeight ++ [t.roleId] ++ t.minerPkh.bytes ++ le64 t.epoch ++ le64 t.expiryHeight ++
    t.assignmentPublicKey.bytes ++ t.sybilWorkNonce.bytes ++ t.sybilWorkDigest.bytes ++ [t.penaltyStatus] ++
    t.ticketDigest.bytes

def serializeRoleCandidate (c : RoleCandidate) : Bytes :=
  [c.roleId] ++ c.solverPkh.bytes ++ c.assignmentPublicKey.bytes ++ c.ticketDigest.bytes ++ [c.penaltyStatus] ++
    c.assignmentProofDigest.bytes ++ le64 c.dominanceWeight ++ le64 c.penaltyWeight ++ le64 c.effectiveScore ++
    c.roleClaimDigest.bytes

def serializeCandidateSet (cs : CandidateSet) : Bytes :=
  [cs.networkId] ++ le64 cs.targetHeight ++ cs.seed.bytes ++ leList 2 cs.candidates.length ++
    cs.candidates.flatMap serializeRoleCandidate

def serializePuzzleSolution (s : PuzzleSolutionV1) : Bytes := [s.mode] ++ le64 s.nonce ++ s.proofDigest.bytes

def serializeAssignmentProofV2 (p : AssignmentProofV2) : Bytes :=
  [p.version] ++ [p.networkId] ++ le64 p.targetHeight ++ [p.roleId] ++ p.solverPkh.bytes ++ p.assignmentPublicKey.bytes ++
    p.ticketDigest.bytes ++ p.seed.bytes ++ p.vrfOutput.bytes ++ p.vrfProof.bytes ++ p.digest.bytes

/-- The votes are kept as the bytes that the members sent. -/
structure FinalityProofMirror where
  networkId : UInt8
  targetHeight : UInt64
  blockHash : Hash32
  parentHash : Hash32
  committeeEpoch : UInt64
  thresholdNum : UInt16
  thresholdDen : UInt16
  votes : List (ByteVec finalityVoteWire)

def FinalityProofMirror.serialize (p : FinalityProofMirror) : Bytes :=
  [1] ++ [p.networkId] ++ le64 p.targetHeight ++ p.blockHash.bytes ++ p.parentHash.bytes ++ le64 p.committeeEpoch ++
    le16 p.thresholdNum ++ le16 p.thresholdDen ++ leList 2 p.votes.length ++ p.votes.flatMap ByteVec.bytes

structure AdmissionCommitmentMirror where
  networkId : UInt8
  targetHeight : UInt64
  commitHeight : UInt64
  seed : Hash32
  candidateAdmissionRoot : Hash32
  candidateCount : UInt16
  windowId : UInt64
  digest : Hash32

def AdmissionCommitmentMirror.serialize (a : AdmissionCommitmentMirror) : Bytes :=
  [1] ++ [a.networkId] ++ le64 a.targetHeight ++ le64 a.commitHeight ++ a.seed.bytes ++ a.candidateAdmissionRoot.bytes ++
    le16 a.candidateCount ++ le64 a.windowId ++ a.digest.bytes

end

/-- The mirror of the extension. The records that have the fields of the node's are taken from there; what is written for
them is the pool's. -/
structure Phase20ReceiptExtMirror where
  roleReward : PerRole Pkh
  claims : PerRole PoawxRoleClaim
  feeBps : UInt16
  feePkh : Pkh
  precommitRoot : Option Hash32
  roleTicketProofs : Option (PerRole TicketProof)
  roleDominanceWeights : Option DominanceWeights
  candidateSet : Option CandidateSet
  rolePuzzleProofs : Option (PerRole PuzzleSolutionV1)
  finalityProof : Option FinalityProofMirror
  committedAdmission : Option AdmissionCommitmentMirror
  roleAssignmentV2 : Option (PerRole AssignmentProofV2)

namespace Phase20ReceiptExtMirror

variable (m : Phase20ReceiptExtMirror)

def hasSections : Bool :=
  m.roleTicketProofs.isSome || m.roleDominanceWeights.isSome || m.candidateSet.isSome || m.rolePuzzleProofs.isSome ||
    m.finalityProof.isSome || m.committedAdmission.isSome || m.roleAssignmentV2.isSome

def serialize : Bytes :=
  [phase20ExtVersion] ++ serializeRoleReward m.roleReward ++
  m.claims.toList.flatMap (fun c => leList 2 (serializeClaim c).length ++ serializeClaim c) ++
  le16 m.feeBps ++ m.feePkh.bytes ++
  (match m.precommitRoot with
    | some root => [1] ++ root.bytes
    | none => if m.hasSections then [0] else []) ++
  serializeOption (fun ps => asciiBytes "TPK1" ++ ps.toList.flatMap serializeTicketProof) m.roleTicketProofs ++
  serializeOption (fun w => asciiBytes "DOM1" ++ (w.primary :: w.roles.toList).flatMap le64) m.roleDominanceWeights ++
  serializeOption (fun cs => asciiBytes "CND1" ++ leList 4 (serializeCandidateSet cs).length ++ serializeCandidateSet cs)
    m.candidateSet ++
  serializeOption (fun ps => asciiBytes "PZL1" ++ ps.toList.flatMap serializePuzzleSolution) m.rolePuzzleProofs ++
  serializeOption (fun p => asciiBytes "FIN1" ++ leList 4 p.serialize.length ++ p.serialize) m.finalityProof ++
  serializeOption (fun a => asciiBytes "CAC1" ++ a.serialize) m.committedAdmission ++
  serializeOption (fun ps => asciiBytes "AVR2" ++ ps.toList.flatMap serializeAssignmentProofV2) m.roleAssignmentV2

/-- The node's extension with the same values, its votes being `votes`. -/
def toNode (votes : List FinalityVoteV1) : Phase20ReceiptExt where
  roleReward := m.roleReward
  claims := m.claims
  feeBps := m.feeBps
  feePkh := m.feePkh
  precommitRoot := m.precommitRoot
  roleTicketProofs := m.roleTicketProofs
  roleDominanceWeights := m.roleDominanceWeights
  candidateSet := m.candidateSet
  rolePuzzleProofs := m.rolePuzzleProofs
  finalityProof := m.finalityProof.map fun p => ⟨1, p.networkId, p.targetHeight, p.blockHash, p.parentHash,
    p.committeeEpoch, p.thresholdNum, p.thresholdDen, votes⟩
  committedAdmission := m.committedAdmission.map fun a => ⟨1, a.networkId, a.targetHeight, a.commitHeight, a.seed,
    a.candidateAdmissionRoot, a.candidateCount, a.windowId, a.digest⟩
  roleAssignmentV2 := m.roleAssignmentV2
  fraudProofs := none
  proposerAssignment := none
  proposerRegistrations := none

def VotesAre (votes : List FinalityVoteV1) : Prop :=
  ∀ p ∈ m.finalityProof, p.votes.map ByteVec.bytes = votes.map FinalityVoteV1.serialize

structure WithinCaps : Prop where
  candidates : ∀ cs ∈ m.candidateSet, cs.candidates.length ≤ maxCandidates
  votes : ∀ p ∈ m.finalityProof, p.votes.length ≤ finalityMaxVotes
  admission : ∀ a ∈ m.committedAdmission, a.candidateCount ≤ maxCommittedCandidates

end Phase20ReceiptExtMirror

theorem serializeClaim_eq (c : PoawxRoleClaim) : serializeClaim c = c.serialize := by
  rw [serializeClaim, PoawxRoleClaim.serialize]
  rfl

theorem serializeAssignmentProofV2_eq (p : AssignmentProofV2) : serializeAssignmentProofV2 p = p.serialize := by
  simp [serializeAssignmentProofV2, AssignmentProofV2.serialize, AssignmentProofV2.body]

variable {k : Nat} {bs : Bytes}

theorem exists_split (n : Nat) (h : bs.length = n + k) :
    ∃ (v : ByteVec n) (rest : Bytes), bs = v.bytes ++ rest ∧ rest.length = k :=
  ⟨⟨bs.take n, by simp; omega⟩, bs.drop n, (List.take_append_drop n bs).symm, by simp; omega⟩

theorem exists_byte (h : bs.length = k + 1) :
    ∃ (b : UInt8) (rest : Bytes), bs = b :: rest ∧ rest.length = k := by
  obtain ⟨b, rest, rfl⟩ := List.exists_cons_of_length_eq_add_one h
  exact ⟨b, rest, rfl, Nat.succ_injective h⟩

theorem exists_le64 (v : ByteVec 8) : ∃ x : UInt64, v.bytes = le64 x :=
  ⟨UInt64.ofNat (leNat v.bytes), (leList_eq_bytes v (UInt64.toNat_ofNat_of_lt' (leNat_bytes_lt v))).symm⟩

theorem exists_vote (raw : ByteVec finalityVoteWire) : ∃ v : FinalityVoteV1, raw.bytes = v.serialize := by
  obtain ⟨version, b1, hraw, h1⟩ := exists_byte (k := 231) raw.length_bytes
  obtain ⟨networkId, b2, rfl, h2⟩ := exists_byte (k := 230) h1
  obtain ⟨height, b3, rfl, h3⟩ := exists_split 8 (k := 222) h2
  obtain ⟨blockHash, b4, rfl, h4⟩ := exists_split 32 (k := 190) h3
  obtain ⟨parentHash, b5, rfl, h5⟩ := exists_split 32 (k := 158) h4
  obtain ⟨epoch, b6, rfl, h6⟩ := exists_split 8 (k := 150) h5
  obtain ⟨memberPkh, b7, rfl, h7⟩ := exists_split 20 (k := 130) h6
  obtain ⟨memberPubkey, b8, rfl, h8⟩ := exists_split 33 (k := 97) h7
  obtain ⟨ticketDigest, b9, rfl, h9⟩ := exists_split 32 (k := 65) h8
  obtain ⟨voteType, b10, rfl, h10⟩ := exists_byte (k := 64) h9
  obtain ⟨targetHeight, hheight⟩ := exists_le64 height
  obtain ⟨committeeEpoch, hepoch⟩ := exists_le64 epoch
  refine ⟨⟨version, networkId, targetHeight, blockHash, parentHash, committeeEpoch, memberPkh, memberPubkey,
    ticketDigest, voteType, ⟨b10, h10⟩⟩, ?_⟩
  simp [hraw, hheight, hepoch, FinalityVoteV1.serialize]

theorem exists_votes (raws : List (ByteVec finalityVoteWire)) :
    ∃ votes : List FinalityVoteV1, raws.map ByteVec.bytes = votes.map FinalityVoteV1.serialize := by
  induction raws with
  | nil => exact ⟨[], rfl⟩
  | cons raw raws ih =>
    obtain ⟨v, hv⟩ := exists_vote raw
    obtain ⟨votes, hvotes⟩ := ih
    exact ⟨v :: votes, by simp only [List.map_cons, hv, hvotes]⟩

namespace Phase20ReceiptExtMirror

variable {m : Phase20ReceiptExtMirror} {votes : List FinalityVoteV1} {p : FinalityProofMirror}

theorem exists_votesAre (m : Phase20ReceiptExtMirror) : ∃ votes, m.VotesAre votes := by
  cases hp : m.finalityProof with
  | none => exact ⟨[], fun p h => by simp [hp] at h⟩
  | some p =>
    obtain ⟨votes, h⟩ := exists_votes p.votes
    exact ⟨votes, fun q hq => by cases hp.symm.trans hq; exact h⟩

theorem VotesAre.length_eq (h : m.VotesAre votes) (hp : p ∈ m.finalityProof) :
    p.votes.length = votes.length := by
  simpa using congrArg List.length (h p hp)

theorem serialize_finality (h : m.VotesAre votes) (hp : p ∈ m.finalityProof) :
    p.serialize = (⟨1, p.networkId, p.targetHeight, p.blockHash, p.parentHash, p.committeeEpoch, p.thresholdNum,
      p.thresholdDen, votes⟩ : FinalityProofV1).serialize := by
  have hvotes : p.votes.flatMap ByteVec.bytes = votes.flatMap FinalityVoteV1.serialize := by
    rw [List.flatMap, h p hp, ← List.flatMap]
  simp only [FinalityProofMirror.serialize, FinalityProofV1.serialize, hvotes, h.length_eq hp, List.cons_append,
    List.nil_append]

theorem toNode_serializeFinality (h : m.VotesAre votes) :
    serializeOption (fun p => asciiBytes "FIN1" ++ leList 4 p.serialize.length ++ p.serialize) m.finalityProof =
      serializeOption (fun fp => asciiBytes "FIN1" ++ leList 4 fp.serialize.length ++ fp.serialize)
        (m.toNode votes).finalityProof := by
  cases hp : m.finalityProof with
  | none => simp [toNode, hp, serializeOption]
  | some p => simp only [toNode, hp, serializeOption, Option.map_some, serialize_finality h hp]

theorem toNode_serializeAdmission (m : Phase20ReceiptExtMirror) (votes : List FinalityVoteV1) :
    serializeOption (fun a => asciiBytes "CAC1" ++ a.serialize) m.committedAdmission =
      serializeOption (fun ca => asciiBytes "CAC1" ++ ca.serialize) (m.toNode votes).committedAdmission := by
  cases ha : m.committedAdmission with
  | none => simp [toNode, ha, serializeOption]
  | some a =>
    simp [toNode, ha, serializeOption, AdmissionCommitmentMirror.serialize, AdmissionCommitmentV1.serialize,
      AdmissionCommitmentV1.body]

theorem toNode_hasTrailing : (m.toNode votes).hasTrailing = m.hasSections := by
  simp [hasSections, Phase20ReceiptExt.hasTrailing, toNode]

theorem toNode_serializePrecommit : (m.toNode votes).serializePrecommit =
    match m.precommitRoot with
    | some root => [1] ++ root.bytes
    | none => if m.hasSections then [0] else [] := by
  rw [Phase20ReceiptExt.serializePrecommit, toNode_hasTrailing]
  rfl

theorem toNode_serialize (h : m.VotesAre votes) : (m.toNode votes).serialize = m.serialize := by
  have hroles : m.roleReward.toList.flatMap ByteVec.bytes = serializeRoleReward m.roleReward := by
    simp [PerRole.toList, serializeRoleReward]
  have hassign : AssignmentProofV2.serialize = serializeAssignmentProofV2 :=
    funext fun p => (serializeAssignmentProofV2_eq p).symm
  have hclaim : PoawxRoleClaim.serialize = serializeClaim := funext fun c => (serializeClaim_eq c).symm
  rw [serialize, Phase20ReceiptExt.serialize, Phase20ReceiptExt.serializeSections, toNode_serializePrecommit,
    toNode_serializeFinality h, m.toNode_serializeAdmission votes, hassign, hclaim, ← hroles]
  simp only [toNode, serializeOption, List.append_nil, List.append_assoc, List.flatMap_cons]
  rfl

theorem toNode_fits (h : m.VotesAre votes) : (m.toNode votes).Fits ↔ m.WithinCaps := by
  constructor
  · intro hfits
    refine ⟨hfits.candidates, fun p hp => ?_, fun a ha => ?_⟩
    · rw [h.length_eq hp]
      exact hfits.votes _ (Option.mem_map_of_mem _ hp)
    · exact (hfits.admission _ (Option.mem_map_of_mem _ ha)).candidateCount
  · intro hcaps
    refine ⟨hcaps.candidates, fun fp hfp => ?_, fun ca hca => ?_, by simp [toNode], by simp [toNode]⟩
    · obtain ⟨p, hp, rfl⟩ := Option.mem_map.mp hfp
      exact h.length_eq hp ▸ hcaps.votes p hp
    · obtain ⟨a, ha, rfl⟩ := Option.mem_map.mp hca
      exact ⟨rfl, hcaps.admission a ha⟩

end Phase20ReceiptExtMirror

section

variable (e : Phase20ReceiptExt)

def afterRoles : Bytes :=
  e.claims.toList.flatMap (fun c => leList 2 c.serialize.length ++ c.serialize) ++
    (le16 e.feeBps ++ e.feePkh.bytes ++ (e.serializePrecommit ++ e.serializeSections))

theorem extension_eq : e.serialize = phase20ExtVersion :: (e.roleReward.compute.bytes ++
    (e.roleReward.verify.bytes ++ (e.roleReward.support.bytes ++ afterRoles e))) := by
  simp [Phase20ReceiptExt.serialize, afterRoles, PerRole.toList, phase20ExtVersion]

theorem extension_head : e.serialize.head? = some phase20ExtVersion := by
  rw [extension_eq]
  rfl

theorem extension_length : ¬ e.serialize.length < 61 := by
  rw [extension_eq]
  simp only [List.length_cons, List.length_append, ByteVec.length_eq]
  omega

theorem drop_version : e.serialize.drop 1 = e.roleReward.compute.bytes ++
    (e.roleReward.verify.bytes ++ (e.roleReward.support.bytes ++ afterRoles e)) := by
  rw [extension_eq]
  rfl

theorem roleRewardPkhsFromExtHex_encode : roleRewardPkhsFromExtHex (encodeHex e.serialize) = some e.roleReward := by
  have h1 := drop_version e
  have h21 := drop_add_of_drop_eq h1
  have h41 := drop_add_of_drop_eq h21
  simp [roleRewardPkhsFromExtHex, decodeHex_encodeHex, extension_length, extension_head, sliceVec_of_drop h1,
    sliceVec_of_drop h21, sliceVec_of_drop h41]

theorem drop_roles : e.serialize.drop 61 = afterRoles e :=
  drop_add_of_drop_eq (drop_add_of_drop_eq (drop_add_of_drop_eq (drop_version e)))

theorem roleClaim_length_lt (c : PoawxRoleClaim) : c.serialize.length < 65536 := by
  cases h : c.commitmentHash <;> simp [PoawxRoleClaim.serialize, h]

theorem skipClaim_encode (c : PoawxRoleClaim) (rest : Bytes) :
    skipClaim (leList 2 c.serialize.length ++ (c.serialize ++ rest)) = some rest := by
  have hlen : leNat (leList 2 c.serialize.length) = c.serialize.length := by
    rw [leNat_leList]
    exact Nat.mod_eq_of_lt (roleClaim_length_lt c)
  have htake : (leList 2 c.serialize.length ++ (c.serialize ++ rest)).take 2 = leList 2 c.serialize.length :=
    List.take_left' (leList_length 2 _)
  rw [skipClaim, htake, hlen, ← List.drop_drop, List.drop_left' (leList_length 2 _), List.drop_left' rfl,
    if_neg (by simp only [List.length_append, leList_length]; omega)]

theorem feeTermsFromExtHex_encode : feeTermsFromExtHex (encodeHex e.serialize) = some (e.feeBps, e.feePkh) := by
  generalize htail : e.serializePrecommit ++ e.serializeSections = tail
  have hafter : afterRoles e = leList 2 e.claims.compute.serialize.length ++ (e.claims.compute.serialize ++
      (leList 2 e.claims.verify.serialize.length ++ (e.claims.verify.serialize ++
        (leList 2 e.claims.support.serialize.length ++ (e.claims.support.serialize ++
          (le16 e.feeBps ++ (e.feePkh.bytes ++ tail))))))) := by
    simp [afterRoles, PerRole.toList, htail]
  have hbps : UInt16.ofNat (leNat (le16 e.feeBps)) = e.feeBps := by
    have hlt : e.feeBps.toNat < 256 ^ 2 := e.feeBps.toNat_lt
    rw [le16, leNat_leList, Nat.mod_eq_of_lt hlt, UInt16.ofNat_toNat]
  have htake : (le16 e.feeBps ++ (e.feePkh.bytes ++ tail)).take 2 = le16 e.feeBps :=
    List.take_left' (leList_length 2 _)
  have hdrop : (le16 e.feeBps ++ (e.feePkh.bytes ++ tail)).drop 2 = e.feePkh.bytes ++ tail :=
    List.drop_left' (leList_length 2 _)
  have hlen : ¬ (le16 e.feeBps ++ (e.feePkh.bytes ++ tail)).length < 22 := by
    simp only [List.length_append, le16, leList_length, ByteVec.length_eq]
    omega
  simp only [feeTermsFromExtHex, decodeHex_encodeHex, extension_length, extension_head, drop_roles, hafter,
    skipClaim_encode, hlen, htake, hbps, sliceVec_of_drop hdrop, Option.bind_eq_bind, Option.bind_some, false_or, ne_eq,
    not_true_eq_false, ↓reduceIte, Option.pure_def]

end

/-- The mirror writes the node's bytes for its values. The node reads them back when they keep the limits of its reader,
and the two readers of the pool see the fee terms and the recipients that the node sees. -/
theorem extension_mirror (m : Phase20ReceiptExtMirror) :
    (∃ votes, m.VotesAre votes) ∧ ∀ votes, m.VotesAre votes →
      m.serialize = (m.toNode votes).serialize ∧
      (Phase20ReceiptExt.deserialize m.serialize = .ok (m.toNode votes) ↔ m.WithinCaps) ∧
      feeTermsFromExtHex (encodeHex m.serialize) = some ((m.toNode votes).feeBps, (m.toNode votes).feePkh) ∧
      roleRewardPkhsFromExtHex (encodeHex m.serialize) = some (m.toNode votes).roleReward := by
  refine ⟨m.exists_votesAre, fun votes h => ?_⟩
  rw [← Phase20ReceiptExtMirror.toNode_serialize h]
  refine ⟨rfl, ?_, feeTermsFromExtHex_encode _, roleRewardPkhsFromExtHex_encode _⟩
  rw [Phase20ReceiptExt.deserialize_serialize_iff, Phase20ReceiptExtMirror.toNode_fits h]

/-- An extension whose admission commits to more candidates than the node's reader takes. -/
def crowdedMirror : Phase20ReceiptExtMirror where
  roleReward := ⟨ByteVec.zero 20, ByteVec.zero 20, ByteVec.zero 20⟩
  claims :=
    let claim roleId : PoawxRoleClaim :=
      ⟨roleId, 0, ByteVec.zero 20, ByteVec.zero 32, ByteVec.zero 32, ByteVec.zero 32, none⟩
    ⟨claim 1, claim 2, claim 3⟩
  feeBps := 100
  feePkh := ByteVec.zero 20
  precommitRoot := none
  roleTicketProofs := none
  roleDominanceWeights := none
  candidateSet := none
  rolePuzzleProofs := none
  finalityProof := none
  committedAdmission := some ⟨0, 10, 5, ByteVec.zero 32, ByteVec.zero 32, 4097, 1, ByteVec.zero 32⟩
  roleAssignmentV2 := none

theorem crowded_mirror_rejected :
    crowdedMirror.serialize = (crowdedMirror.toNode []).serialize ∧
      (Phase20ReceiptExt.deserialize crowdedMirror.serialize).toOption = none := by
  decide +kernel

end Pool

end IriumConsensus
