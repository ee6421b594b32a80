import IriumConsensus.Lib.Sections
import IriumConsensus.Persist.RecordCodec

namespace IriumConsensus

open ByteCodec

variable {n : Nat} {e : Phase20ReceiptExt} {α : Type}

namespace Phase20ReceiptExt

def truncated (what : String) : String := "phase20 ext: truncated reading " ++ what

def readClaim : Reader PoawxRoleClaim := do
  let len ← readLen 2 (truncated "claim len")
  readSlice len (truncated "claim body") PoawxRoleClaim.deserialize

def readPrecommit : Reader (Option Hash32) := fun bs =>
  if bs = [] then .ok (none, [])
  else readOptionalHash (truncated "precommit_root") (fun flag => s!"phase20 ext: bad precommit flag {flag}") bs

def fieldSection {α : Type} (magic name : String) (get : Phase20ReceiptExt → Option α)
    (set : Option α → Phase20ReceiptExt → Phase20ReceiptExt) (r : Reader α) : Section Phase20ReceiptExt where
  tag := asciiBytes magic
  duplicate := "phase20 ext: duplicate " ++ name ++ " section"
  present e := (get e).isSome
  read e := do
    let a ← r
    return set (some a) e

def ticketSection : Section Phase20ReceiptExt :=
  fieldSection "TPK1" "ticket" roleTicketProofs (fun x e => { e with roleTicketProofs := x })
    (PerRole.reader (readSlice ticketProofWire (truncated "ticket proof") TicketProof.deserialize))

def readDominanceWeights : Reader DominanceWeights := do
  let primary ← readU64 (truncated "dominance weights")
  let roles ← PerRole.reader (readU64 (truncated "dominance weights"))
  return ⟨primary, roles⟩

def dominanceSection : Section Phase20ReceiptExt :=
  fieldSection "DOM1" "dominance" roleDominanceWeights (fun x e => { e with roleDominanceWeights := x })
    readDominanceWeights

def readSized {α : Type} (name : String) (decode : Bytes → Except String α) : Reader α := do
  let len ← readLen 4 (truncated (name ++ " section length"))
  readSlice len (truncated (name ++ " section body")) decode

def candidateSection : Section Phase20ReceiptExt :=
  fieldSection "CND1" "candidate" candidateSet (fun x e => { e with candidateSet := x })
    (readSized "candidate" CandidateSet.deserialize)

def puzzleSection : Section Phase20ReceiptExt :=
  fieldSection "PZL1" "puzzle" rolePuzzleProofs (fun x e => { e with rolePuzzleProofs := x })
    (PerRole.reader (readSlice puzzleSolutionWire (truncated "puzzle solution") PuzzleSolutionV1.deserialize))

def finalitySection : Section Phase20ReceiptExt :=
  fieldSection "FIN1" "finality" finalityProof (fun x e => { e with finalityProof := x })
    (readSized "finality" FinalityProofV1.deserialize)

def committedAdmissionSection : Section Phase20ReceiptExt :=
  fieldSection "CAC1" "committed-admission" committedAdmission (fun x e => { e with committedAdmission := x })
    (readSlice admissionCommitmentWire (truncated "committed admission") AdmissionCommitmentV1.deserialize)

def assignmentV2Section : Section Phase20ReceiptExt :=
  fieldSection "AVR2" "true-vrf" roleAssignmentV2 (fun x e => { e with roleAssignmentV2 := x })
    (PerRole.reader (readSlice assignmentProofV2Wire (truncated "v2 assignment proof") AssignmentProofV2.deserialize))

def readFraudProofs : Reader (List FraudProofV1) := do
  let count ← readLen 2 (truncated "fraud-proof count")
  rejectIf (count = 0 ∨ fraudProofMaxPerBlock < count) "phase20 ext: fraud-proof count out of range"
  readMany (readSlice fraudProofV1Wire (truncated "fraud proof") FraudProofV1.deserialize) count

def fraudSection : Section Phase20ReceiptExt :=
  fieldSection "FRD1" "fraud-proof" fraudProofs (fun x e => { e with fraudProofs := x }) readFraudProofs

def proposerSection : Section Phase20ReceiptExt :=
  fieldSection "PRP1" "proposer" proposerAssignment (fun x e => { e with proposerAssignment := x })
    (readSlice proposerAssignmentV1Wire (truncated "proposer assignment") ProposerAssignmentV1.deserialize)

def readRegistrations (name : String) (cap : Nat) : Reader (List ProposerRegistrationV1) := do
  let count ← readLen 2 (truncated ("registration " ++ name ++ " count"))
  rejectIf (cap < count) ("phase20 ext: registration " ++ name ++ " count over cap")
  readMany (readSlice proposerRegistrationV1Wire (truncated ("registration " ++ name))
    ProposerRegistrationV1.deserialize) count

def readRegistrationSection : Reader ProposerRegistrationSection := do
  let announces ← readRegistrations "announce" proposerAnnounceCap
  let activations ← readRegistrations "activation" proposerRegCap
  return ⟨announces, activations⟩

def registrationSection : Section Phase20ReceiptExt :=
  fieldSection "PRG1" "proposer registration" proposerRegistrations
    (fun x e => { e with proposerRegistrations := x }) readRegistrationSection

def format : SectionFormat Phase20ReceiptExt where
  sections := [ticketSection, dominanceSection, candidateSection, puzzleSection, finalitySection,
    committedAdmissionSection, assignmentV2Section, fraudSection, proposerSection, registrationSection]
  tagLen := 4
  truncated := truncated "trailing section magic"
  unknown := "phase20 ext: unknown trailing section magic"

def bare (roleReward : PerRole Pkh) (claims : PerRole PoawxRoleClaim) (feeBps : UInt16) (feePkh : Pkh)
    (precommitRoot : Option Hash32) : Phase20ReceiptExt where
  roleReward := roleReward
  claims := claims
  feeBps := feeBps
  feePkh := feePkh
  precommitRoot := precommitRoot
  roleTicketProofs := none
  roleDominanceWeights := none
  candidateSet := none
  rolePuzzleProofs := none
  finalityProof := none
  committedAdmission := none
  roleAssignmentV2 := none
  fraudProofs := none
  proposerAssignment := none
  proposerRegistrations := none

def reader (fuel : Nat) : Reader Phase20ReceiptExt := do
  let version ← readU8 (truncated "version")
  rejectIf (version ≠ 1) s!"phase20 ext: unknown version {version}"
  let roleReward ← readSlice roleRewardWire (truncated "role_reward") roleRewardDeserialize
  let claims ← PerRole.reader readClaim
  let feeBps ← readU16 (truncated "fee_bps")
  let feePkh ← readVec 20 (truncated "fee_pkh")
  let precommitRoot ← readPrecommit
  readSections format fuel (bare roleReward claims feeBps feePkh precommitRoot)

def deserialize (raw : Bytes) : Except String Phase20ReceiptExt := (reader raw.length raw).map Prod.fst

structure Fits (e : Phase20ReceiptExt) : Prop where
  candidates : ∀ cs ∈ e.candidateSet, cs.candidates.length ≤ maxCandidates
  votes : ∀ p ∈ e.finalityProof, p.votes.length ≤ finalityMaxVotes
  admission : ∀ a ∈ e.committedAdmission, a.Fits
  frauds : ∀ fps ∈ e.fraudProofs, 0 < fps.length ∧ fps.length ≤ fraudProofMaxPerBlock
  registrations : ∀ reg ∈ e.proposerRegistrations,
    reg.announces.length ≤ proposerAnnounceCap ∧ reg.activations.length ≤ proposerRegCap

instance (e : Phase20ReceiptExt) : Decidable e.Fits :=
  decidable_of_iff (_ ∧ _ ∧ _ ∧ _ ∧ _)
    ⟨fun h => ⟨h.1, h.2.1, h.2.2.1, h.2.2.2.1, h.2.2.2.2⟩,
      fun h => ⟨h.candidates, h.votes, h.admission, h.frauds, h.registrations⟩⟩

variable {s : Section Phase20ReceiptExt} {enc : α → Bytes} {acc : Phase20ReceiptExt} {x : Option α} {bs : Bytes}

theorem find_section (h : s ∈ format.sections) :
    s.tag.length = 4 ∧ format.sections.find? (fun s' => s'.tag = s.tag) = some s := by
  simp only [format, List.mem_cons, List.not_mem_nil, or_false] at h
  rcases h with rfl | rfl | rfl | rfl | rfl | rfl | rfl | rfl | rfl | rfl
  all_goals exact ⟨rfl, rfl⟩

theorem completes_field {magic name : String} {get : Phase20ReceiptExt → Option α}
    {set : Option α → Phase20ReceiptExt → Phase20ReceiptExt} {r : Reader α} {rest : Bytes}
    (hs : fieldSection magic name get set r ∈ format.sections) (hread : ∀ a ∈ x, Reads r (enc a) a)
    (hnew : get acc = none) (hnone : set none acc = acc) (hrest : Completes format (set x acc) rest e) :
    Completes format acc (serializeOption (fun a => asciiBytes magic ++ enc a) x ++ rest) e := by
  cases x with
  | none =>
    rw [hnone] at hrest
    exact hrest
  | some a =>
    obtain ⟨hlen, hfind⟩ := find_section hs
    have hbody : Reads ((fieldSection magic name get set r).read acc) (enc a) (set (some a) acc) :=
      (hread a rfl).map fun a => set (some a) acc
    have hnew' : (fieldSection magic name get set r).present acc = false := by simp [fieldSection, hnew]
    have hone := readSection_reads (F := format) hlen hfind hnew' hbody
    refine Completes.step ?_ hone hrest
    intro hnil
    have htag : (fieldSection magic name get set r).tag = [] := (List.append_eq_nil_iff.mp hnil).1
    rw [htag] at hlen
    exact absurd hlen (by decide)

theorem readSized_reads {decode : Bytes → Except String α} {a : α} (hlen : bs.length < 256 ^ 4) (h : decode bs = .ok a)
    (name : String) :
    Reads (readSized name decode) (leList 4 bs.length ++ bs) a :=
  (readLen_reads hlen _).bind (readSlice_reads rfl h _)

theorem readFraudProofs_reads {fps : List FraudProofV1} (h : 0 < fps.length ∧ fps.length ≤ fraudProofMaxPerBlock) :
    Reads readFraudProofs (leList 2 fps.length ++ fps.flatMap FraudProofV1.serialize) fps := by
  have hlen : fps.length < 256 ^ 2 := h.2.trans_lt (by decide)
  have hcount : ¬(fps.length = 0 ∨ fraudProofMaxPerBlock < fps.length) := by omega
  refine (readLen_reads hlen _).bind ((rejectIf_reads hcount _).bind ?_)
  exact readMany_reads fun p _ => FraudProofV1.fixed.slice _ p

theorem readRegistrations_reads {regs : List ProposerRegistrationV1} {cap : Nat} (hcap : cap < 256 ^ 2)
    (h : regs.length ≤ cap) (name : String) :
    Reads (readRegistrations name cap) (leList 2 regs.length ++ regs.flatMap ProposerRegistrationV1.serialize) regs := by
  refine (readLen_reads (h.trans_lt hcap) _).bind ((rejectIf_reads (not_lt.mpr h) _).bind ?_)
  exact readMany_reads fun r _ => ProposerRegistrationV1.fixed.slice _ r

theorem readRegistrationSection_reads {reg : ProposerRegistrationSection}
    (h : reg.announces.length ≤ proposerAnnounceCap ∧ reg.activations.length ≤ proposerRegCap) :
    Reads readRegistrationSection reg.serialize reg := by
  have hann := readRegistrations_reads (by decide) h.1 "announce"
  have hact := readRegistrations_reads (by decide) h.2 "activation"
  rw [ProposerRegistrationSection.serialize, List.append_assoc]
  exact hann.bind (hact.map _)

theorem candidateSet_length {cs : CandidateSet} (h : cs.candidates.length ≤ maxCandidates) :
    cs.serialize.length ≤ 65536 := by
  have hlen : (cs.candidates.flatMap RoleCandidate.serialize).length = cs.candidates.length * roleCandidateWire :=
    RoleCandidate.fixed.flatMap_length _
  simp only [CandidateSet.serialize, List.length_append, hlen, le64, leList_length, ByteVec.length_bytes,
    List.length_singleton, roleCandidateWire]
  simp only [maxCandidates] at h
  omega

theorem finalityProof_length {p : FinalityProofV1} (h : p.votes.length ≤ finalityMaxVotes) :
    p.serialize.length ≤ 65536 := by
  have hlen : (p.votes.flatMap FinalityVoteV1.serialize).length = p.votes.length * finalityVoteWire :=
    FinalityVoteV1.fixed.flatMap_length _
  simp only [FinalityProofV1.serialize, List.length_append, hlen, le64, le16, leList_length, ByteVec.length_bytes,
    List.length_cons, List.length_nil, finalityVoteWire]
  simp only [finalityMaxVotes] at h
  omega

theorem completes_sections (h : e.Fits) :
    Completes format (bare e.roleReward e.claims e.feeBps e.feePkh e.precommitRoot) e.serializeSections e := by
  rw [← List.append_nil e.serializeSections, serializeSections]
  simp only [List.append_assoc]
  refine completes_field (show ticketSection ∈ _ by simp [format]) (fun ps _ => ?_) rfl rfl ?_
  · exact PerRole.reader_reads (TicketProof.fixed.slice _) ps
  refine completes_field (show dominanceSection ∈ _ by simp [format]) (fun w _ => ?_) rfl rfl ?_
  · exact (readU64_reads _ w.primary).bind ((PerRole.reader_reads (readU64_reads _) w.roles).map _)
  refine completes_field (show candidateSection ∈ _ by simp [format]) (fun cs hcs => ?_) rfl rfl ?_
  · have hfits := h.candidates cs hcs
    exact readSized_reads ((candidateSet_length hfits).trans_lt (by decide)) (CandidateSet.deserialize_serialize hfits) _
  refine completes_field (show puzzleSection ∈ _ by simp [format]) (fun ps _ => ?_) rfl rfl ?_
  · exact PerRole.reader_reads (PuzzleSolutionV1.fixed.slice _) ps
  refine completes_field (show finalitySection ∈ _ by simp [format]) (fun p hp => ?_) rfl rfl ?_
  · have hfits := h.votes p hp
    exact readSized_reads ((finalityProof_length hfits).trans_lt (by decide)) (FinalityProofV1.deserialize_serialize hfits) _
  refine completes_field (show committedAdmissionSection ∈ _ by simp [format]) (fun a ha => ?_) rfl rfl ?_
  · exact readSlice_reads a.serialize_length (AdmissionCommitmentV1.deserialize_serialize (h.admission a ha)) _
  refine completes_field (show assignmentV2Section ∈ _ by simp [format]) (fun ps _ => ?_) rfl rfl ?_
  · exact PerRole.reader_reads (AssignmentProofV2.fixed.slice _) ps
  refine completes_field (show fraudSection ∈ _ by simp [format]) (fun fps hfps => ?_) rfl rfl ?_
  · exact readFraudProofs_reads (h.frauds fps hfps)
  refine completes_field (show proposerSection ∈ _ by simp [format]) (fun a _ => ?_) rfl rfl ?_
  · exact ProposerAssignmentV1.fixed.slice _ a
  refine completes_field (show registrationSection ∈ _ by simp [format]) (fun reg hreg => ?_) rfl rfl ?_
  · exact readRegistrationSection_reads (h.registrations reg hreg)
  exact completes_nil e

theorem readClaim_reads (c : PoawxRoleClaim) :
    Reads readClaim (leList 2 c.serialize.length ++ c.serialize) c := by
  have hlen : c.serialize.length < 256 ^ 2 := c.serialize_length.2.trans_lt (by decide)
  exact (readLen_reads hlen _).bind (readSlice_reads rfl c.deserialize_serialize _)

theorem readPrecommit_apply (e : Phase20ReceiptExt) :
    readPrecommit (e.serializePrecommit ++ e.serializeSections) = .ok (e.precommitRoot, e.serializeSections) := by
  have hflag := readOptionalHash_reads (truncated "precommit_root") fun flag => s!"phase20 ext: bad precommit flag {flag}"
  unfold serializePrecommit
  cases hroot : e.precommitRoot with
  | some root => exact hflag (some root) e.serializeSections
  | none =>
    dsimp only
    split
    next => exact hflag none e.serializeSections
    next htrailing =>
      have hnil : e.serializeSections = [] := by
        simp only [hasTrailing, Bool.or_eq_true, not_or, Bool.not_eq_true, Option.isSome_eq_false_iff,
          Option.isNone_iff_eq_none] at htrailing
        simp [serializeSections, htrailing, serializeOption]
      rw [hnil]
      rfl

theorem deserialize_serialize (h : e.Fits) : deserialize e.serialize = .ok e := by
  have hsections := completes_sections h e.serialize.length
    (by simp only [serialize, List.length_append]; omega)
  have hclaims := PerRole.reader_reads readClaim_reads e.claims
  have hreward := roleReward_fixed.slice (truncated "role_reward") e.roleReward
  rw [deserialize]
  generalize e.serialize.length = fuel at hsections
  rw [serialize, reader]
  simp only [List.append_assoc]
  rw [(readU8_reads _ 1).bind_apply, rejectIf_bind (not_not.mpr rfl), hreward.bind_apply, hclaims.bind_apply,
    readU16_bind, readVec_bind, reader_bind_of_ok e.readPrecommit_apply, hsections]
  rfl

theorem serializeOption_length {f : α → Bytes} (h : ∀ a ∈ x, (f a).length ≤ n) :
    (serializeOption f x).length ≤ n := by
  cases x with
  | none => exact Nat.zero_le n
  | some a => exact h a rfl

theorem PerRole.flatMap_length (h : ∀ a, (enc a).length ≤ n) (p : PerRole α) :
    (p.toList.flatMap enc).length ≤ 3 * n := by
  have h1 := h p.compute
  have h2 := h p.verify
  have h3 := h p.support
  simp only [PerRole.toList, List.flatMap_cons, List.flatMap_nil, List.length_append, List.length_nil]
  omega

theorem length_append_le {as : Bytes} {m : Nat} (ha : as.length ≤ m) (hb : bs.length ≤ n) :
    (as ++ bs).length ≤ m + n := by
  rw [List.length_append]
  exact Nat.add_le_add ha hb

theorem serializeSections_length (h : e.Fits) : e.serializeSections.length ≤ 143973 := by
  have hsum : (4 + 3 * ticketProofWire) + (4 + 8 + 3 * 8) + (4 + 4 + 65536) + (4 + 3 * puzzleSolutionWire) +
      (4 + 4 + 65536) + (4 + admissionCommitmentWire) + (4 + 3 * assignmentProofV2Wire) +
      (4 + 2 + 16 * fraudProofV1Wire) + (4 + proposerAssignmentV1Wire) +
      (4 + (2 + 8 * proposerRegistrationV1Wire + 2 + 8 * proposerRegistrationV1Wire)) = 143973 := rfl
  have hfixed : ∀ {α : Type} {decode : Bytes → Except String α} {enc : α → Bytes} {n cap : Nat} (xs : List α),
      Fixed decode enc n → xs.length ≤ cap → (xs.flatMap enc).length ≤ cap * n := by
    intro α decode enc n cap xs hf hxs
    rw [hf.flatMap_length]
    exact Nat.mul_le_mul_right n hxs
  rw [← hsum]
  iterate 9 refine length_append_le ?_ ?_
  all_goals refine serializeOption_length fun a ha => ?_
  · exact length_append_le (by decide) (PerRole.flatMap_length (fun t => (TicketProof.fixed t).1.le) a)
  · refine length_append_le (length_append_le (by decide) (leList_length 8 _).le) ?_
    exact PerRole.flatMap_length (fun x => (leList_length 8 _).le) a.roles
  · exact length_append_le (length_append_le (by decide) (leList_length 4 _).le) (candidateSet_length (h.candidates a ha))
  · exact length_append_le (by decide) (PerRole.flatMap_length (fun t => (PuzzleSolutionV1.fixed t).1.le) a)
  · exact length_append_le (length_append_le (by decide) (leList_length 4 _).le) (finalityProof_length (h.votes a ha))
  · exact length_append_le (by decide) a.serialize_length.le
  · exact length_append_le (by decide) (PerRole.flatMap_length (fun t => (AssignmentProofV2.fixed t).1.le) a)
  · refine length_append_le (length_append_le (by decide) (leList_length 2 _).le) ?_
    exact hfixed a FraudProofV1.fixed (h.frauds a ha).2
  · exact length_append_le (by decide) (ProposerAssignmentV1.fixed a).1.le
  · obtain ⟨hann, hact⟩ := h.registrations a ha
    refine length_append_le (by decide) (length_append_le (length_append_le (length_append_le ?_ ?_) ?_) ?_)
    · exact (leList_length 2 _).le
    · exact hfixed _ ProposerRegistrationV1.fixed hann
    · exact (leList_length 2 _).le
    · exact hfixed _ ProposerRegistrationV1.fixed hact

theorem serializePrecommit_length (e : Phase20ReceiptExt) : e.serializePrecommit.length ≤ 33 := by
  unfold serializePrecommit
  split
  next root _ => simp
  next => split <;> simp

theorem serialize_length (h : e.Fits) : e.serialize.length < 256 ^ 4 := by
  have hclaims : (e.claims.toList.flatMap fun c => leList 2 c.serialize.length ++ c.serialize).length ≤ 3 * 153 :=
    PerRole.flatMap_length (fun c => length_append_le (leList_length 2 _).le c.serialize_length.2) e.claims
  have hreward : (e.roleReward.toList.flatMap ByteVec.bytes).length ≤ 3 * 20 :=
    PerRole.flatMap_length (fun p => p.length_bytes.le) e.roleReward
  have hprecommit := e.serializePrecommit_length
  have hsections := serializeSections_length h
  simp only [serialize, List.length_append, le16, leList_length, ByteVec.length_bytes, List.length_singleton]
  omega

theorem readFraudProofs_yields :
    Yields readFraudProofs fun fps => 0 < fps.length ∧ fps.length ≤ fraudProofMaxPerBlock := by
  refine yields_bind fun n => (rejectIf_yields _ _).bind fun _ hn => ?_
  refine ((yields_true _).readMany n).mono fun fps hfps => ?_
  rw [hfps.1]
  omega

theorem readRegistrations_yields (name : String) (cap : Nat) :
    Yields (readRegistrations name cap) fun regs => regs.length ≤ cap := by
  refine yields_bind fun n => (rejectIf_yields _ _).bind fun _ hn => ?_
  exact ((yields_true _).readMany n).mono fun regs hregs => hregs.1.trans_le (not_lt.mp hn)

theorem section_yields (hs : s ∈ format.sections) (h : acc.Fits) : Yields (s.read acc) Fits := by
  simp only [format, List.mem_cons, List.not_mem_nil, or_false] at hs
  rcases hs with rfl | rfl | rfl | rfl | rfl | rfl | rfl | rfl | rfl | rfl
  · exact yields_bind fun _ => yields_pure ⟨h.candidates, h.votes, h.admission, h.frauds, h.registrations⟩
  · exact yields_bind fun _ => yields_pure ⟨h.candidates, h.votes, h.admission, h.frauds, h.registrations⟩
  · refine Yields.bind (yields_bind fun _ => readSlice_yields (fun _ _ => CandidateSet.fits_of_deserialize) _ _) ?_
    intro cs hcs
    exact yields_pure ⟨by simpa using hcs, h.votes, h.admission, h.frauds, h.registrations⟩
  · exact yields_bind fun _ => yields_pure ⟨h.candidates, h.votes, h.admission, h.frauds, h.registrations⟩
  · refine Yields.bind (yields_bind fun _ => readSlice_yields (fun _ _ => FinalityProofV1.fits_of_deserialize) _ _) ?_
    intro p hp
    exact yields_pure ⟨h.candidates, by simpa using hp, h.admission, h.frauds, h.registrations⟩
  · refine (readSlice_yields (fun _ _ => AdmissionCommitmentV1.fits_of_deserialize) _ _).bind fun a ha => ?_
    exact yields_pure ⟨h.candidates, h.votes, by simpa using ha, h.frauds, h.registrations⟩
  · exact yields_bind fun _ => yields_pure ⟨h.candidates, h.votes, h.admission, h.frauds, h.registrations⟩
  · refine readFraudProofs_yields.bind fun fps hfps => ?_
    exact yields_pure ⟨h.candidates, h.votes, h.admission, by simpa using hfps, h.registrations⟩
  · exact yields_bind fun _ => yields_pure ⟨h.candidates, h.votes, h.admission, h.frauds, h.registrations⟩
  · have hregs : Yields readRegistrationSection fun reg =>
        reg.announces.length ≤ proposerAnnounceCap ∧ reg.activations.length ≤ proposerRegCap :=
      (readRegistrations_yields _ _).bind fun announces hann =>
        (readRegistrations_yields _ _).bind fun activations hact => yields_pure ⟨hann, hact⟩
    exact hregs.bind fun reg hreg =>
      yields_pure ⟨h.candidates, h.votes, h.admission, h.frauds, by simpa using hreg⟩

theorem fits_of_deserialize {raw : Bytes} (h : deserialize raw = .ok e) : e.Fits := by
  refine Yields.decode (P := Fits) ?_ h
  refine yields_bind fun _ => yields_bind fun _ => yields_bind fun _ => yields_bind fun _ => yields_bind fun _ => ?_
  refine yields_bind fun _ => yields_bind fun _ => readSections_yields (fun s hs acc => section_yields hs) _ ?_
  exact ⟨by simp [bare], by simp [bare], by simp [bare], by simp [bare], by simp [bare]⟩

theorem deserialize_serialize_iff : deserialize e.serialize = .ok e ↔ e.Fits :=
  ⟨fits_of_deserialize, deserialize_serialize⟩

end Phase20ReceiptExt

end IriumConsensus
