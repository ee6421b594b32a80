import IriumConsensus.Nodes

namespace IriumConsensus

open ByteCodec Checks

variable {C : Crypto} {networkId : UInt8} {v w : FinalityVoteV1} {height : Nat} {blockHash : Hash32}

theorem FinalityVoteV1.verify_bound (h : v.verify C networkId height blockHash = .ok ()) :
    v.targetHeight.toNat = height ∧ v.blockHash = blockHash := by
  simp only [FinalityVoteV1.verify, bind_eq_ok, exists_unit, failIf_eq_ok, not_not] at h
  obtain ⟨-, -, hheight, hhash, -⟩ := h
  exact ⟨hheight, hhash⟩

theorem FinalityProofV1.validate_vote {p : FinalityProofV1} {committee : List Pkh}
    (h : p.validate C networkId height blockHash committee = .ok ()) (hv : v ∈ p.votes) :
    v.verify C networkId height blockHash = .ok () ∧ v.committeeEpoch = p.committeeEpoch := by
  simp only [FinalityProofV1.validate, bind_eq_ok, exists_unit, failIf_eq_ok, checkAll_eq_ok] at h
  obtain ⟨-, -, -, -, -, -, hvotes, -⟩ := h
  have hvote := hvotes v hv
  simp only [FinalityProofV1.checkVote, bind_eq_ok, exists_unit, failIf_eq_ok, not_or, not_not] at hvote
  exact ⟨hvote.1, hvote.2.1.2⟩

/-- When two votes are evidence: valid by themselves, of one member, and in conflict. -/
structure Equivocates (C : Crypto) (networkId : UInt8) (v w : FinalityVoteV1) : Prop where
  first : v.verify C networkId v.targetHeight.toNat v.blockHash = .ok ()
  second : w.verify C networkId w.targetHeight.toNat w.blockHash = .ok ()
  member : v.memberPkh = w.memberPkh
  height : v.targetHeight = w.targetHeight
  epoch : v.committeeEpoch = w.committeeEpoch
  voteType : v.voteType = w.voteType
  conflict : v.blockHash ≠ w.blockHash

theorem Equivocates.symm (h : Equivocates C networkId v w) : Equivocates C networkId w v :=
  ⟨h.second, h.first, h.member.symm, h.height.symm, h.epoch.symm, h.voteType.symm, h.conflict.symm⟩

theorem verifyFinalityEquivocation_eq_ok (networkId : UInt8) (fp : FraudProofV1) (current : Nat)
    (hoff : fp.voteA.memberPkh = fp.offenderPkh) (hheight : fp.voteA.targetHeight = fp.targetHeight)
    (horder : fp.voteA.blockHash.toNat ≤ fp.voteB.blockHash.toNat) :
    verifyFinalityEquivocation C fp networkId current = .ok (fp.offenderPkh, fp.targetHeight, fp.kind) ↔
      fp.targetHeight.toNat ≤ current ∧ Equivocates C networkId fp.voteA fp.voteB := by
  simp only [verifyFinalityEquivocation, bind_eq_ok, exists_unit, failIf_eq_ok, mapError_eq_ok, pure_eq_ok,
    not_not, not_lt, not_le]
  constructor
  · rintro ⟨hcur, ha, hb, hm, -, hh, -, he, ht, hne, -⟩
    exact ⟨hcur, ha, hb, hm, hh, he, ht, hne⟩
  · rintro ⟨hcur, h⟩
    have hlt : fp.voteA.blockHash.toNat < fp.voteB.blockHash.toNat :=
      horder.lt_of_ne fun heq => h.conflict (ByteVec.toNat_injective heq)
    exact ⟨hcur, h.first, h.second, h.member, hoff, h.height, hheight, h.epoch, h.voteType, h.conflict, hlt,
      trivial⟩

/-- The accusation built from two votes of one member at one height is accepted just when they conflict. -/
theorem verifyFraudProof_finalityEquivocation {current : Nat} (reporterPkh : Pkh) (hm : v.memberPkh = w.memberPkh)
    (hheight : v.targetHeight = w.targetHeight) :
    verifyFraudProof C (.finalityEquivocation networkId reporterPkh v w) networkId current =
        .ok (v.memberPkh, v.targetHeight, fraudKindFinalityEquivocation) ↔
      networkId ≠ 0 ∧ v.targetHeight.toNat ≤ current ∧ Equivocates C networkId v w := by
  have hheader : verifyFraudProof C (.finalityEquivocation networkId reporterPkh v w) networkId current =
      .ok (v.memberPkh, v.targetHeight, fraudKindFinalityEquivocation) ↔
      networkId ≠ 0 ∧ verifyFinalityEquivocation C (.finalityEquivocation networkId reporterPkh v w) networkId
        current = .ok (v.memberPkh, v.targetHeight, fraudKindFinalityEquivocation) := by
    simp [verifyFraudProof, FraudProofV1.finalityEquivocation]
  rw [hheader]
  refine and_congr_right fun _ => ?_
  by_cases horder : v.blockHash.toNat ≤ w.blockHash.toNat
  · have h := verifyFinalityEquivocation_eq_ok (C := C) networkId (.finalityEquivocation networkId reporterPkh v w) current
    simp only [FraudProofV1.finalityEquivocation, if_pos horder] at h ⊢
    exact h trivial trivial horder
  · have h := verifyFinalityEquivocation_eq_ok (C := C) networkId (.finalityEquivocation networkId reporterPkh v w) current
    simp only [FraudProofV1.finalityEquivocation, if_neg horder] at h ⊢
    rw [h hm.symm hheight.symm (Nat.le_of_not_le horder)]
    exact and_congr_right fun _ => ⟨Equivocates.symm, Equivocates.symm⟩

/-- Who commits to two blocks in two accepted proofs is slashable just when the proofs name one epoch. -/
theorem double_commit_slashable_iff {p q : FinalityProofV1} {height current : Nat} {hash hash' : Hash32}
    {committee committee' : List Pkh} {v w : FinalityVoteV1} (reporterPkh : Pkh)
    (hp : p.validate C networkId height hash committee = .ok ())
    (hq : q.validate C networkId height hash' committee' = .ok ()) (hne : hash ≠ hash')
    (hv : v ∈ p.votes) (hw : w ∈ q.votes) (hvc : v.voteType = 1) (hwc : w.voteType = 1)
    (hm : v.memberPkh = w.memberPkh) :
    verifyFraudProof C (.finalityEquivocation networkId reporterPkh v w) networkId current =
        .ok (v.memberPkh, v.targetHeight, fraudKindFinalityEquivocation) ↔
      networkId ≠ 0 ∧ height ≤ current ∧ p.committeeEpoch = q.committeeEpoch := by
  obtain ⟨hvok, hve⟩ := FinalityProofV1.validate_vote hp hv
  obtain ⟨hwok, hwe⟩ := FinalityProofV1.validate_vote hq hw
  obtain ⟨hvh, rfl⟩ := FinalityVoteV1.verify_bound hvok
  obtain ⟨hwh, rfl⟩ := FinalityVoteV1.verify_bound hwok
  have hheight : v.targetHeight = w.targetHeight := UInt64.toNat_inj.mp (hvh.trans hwh.symm)
  rw [verifyFraudProof_finalityEquivocation reporterPkh hm hheight, hvh, ← hve, ← hwe]
  refine and_congr_right fun _ => and_congr_right fun _ => ⟨Equivocates.epoch, fun he => ?_⟩
  exact ⟨hvh ▸ hvok, hwh ▸ hwok, hm, hheight, he, hvc.trans hwc.symm, hne⟩

namespace ChainState

/-- The member of the committee also votes for another block, with the epoch it likes. -/
def otherVote (epoch : UInt64) (signature : Nat) : FinalityVoteV1 :=
  { commitVote with
    blockHash := beVec 32 0x1f348edf151895209940a85d643cb5036368e4fda04b75746e084d7e387a588d
    committeeEpoch := epoch
    signature := beVec 64 signature }

def sameEpochVote : FinalityVoteV1 :=
  otherVote 0 0xd2fcf9694fcf967d137429aed076aca7dc2519339f6faedee5fb7926cb45fb617dbee4324b360c728fa43ff03c19b4311f4e40cf2733ba4947f132eaf2a95f5a

def nextEpochVote : FinalityVoteV1 :=
  otherVote 1 0x2cbc4679a4e1a4ded5ca5eae10298ec6401280d8eef180a52f171450324285581297483abc533783aa3f80cd8871d8d9569e8747ad3cb8f073ad894628acfe98

def doubleVoteCrypto : Crypto :=
  signaturesCrypto
    [{ digest := beVec 32 0xc7c11234eef50f234ea8de6ebf6384adb54074edb66b0fe3faf67c2fcde54dff
       signature := commitVote.signature },
     { digest := beVec 32 0xecef4eefb5aad2bc0c84b8ec4b3698eaeb4fff3c38e752530a1648589335ac03
       signature := sameEpochVote.signature },
     { digest := beVec 32 0x43ee9ac26fa0b104f4c570f74c4b3f1cbe2c64e536a52d17c81dd4e63c6263ec
       signature := nextEpochVote.signature }]

def singleVoteProof (v : FinalityVoteV1) : FinalityProofV1 :=
  ⟨1, v.networkId, v.targetHeight, v.blockHash, v.parentHash, v.committeeEpoch, 2, 3, [v]⟩

theorem same_epoch_slashed :
    verifyFraudProof doubleVoteCrypto (.finalityEquivocation 2 (ByteVec.zero 20) commitVote sameEpochVote) 2 5 =
      .ok (commitVote.memberPkh, commitVote.targetHeight, fraudKindFinalityEquivocation) := by
  have hp : (singleVoteProof commitVote).validate doubleVoteCrypto 2 4 commitVote.blockHash [keyOnePkh] = .ok () := by
    decide +kernel
  have hq : (singleVoteProof sameEpochVote).validate doubleVoteCrypto 2 4 sameEpochVote.blockHash [keyOnePkh] =
      .ok () := by
    decide +kernel
  have hne : commitVote.blockHash ≠ sameEpochVote.blockHash := by decide
  exact (double_commit_slashable_iff (ByteVec.zero 20) hp hq hne (List.mem_singleton_self _)
    (List.mem_singleton_self _) rfl rfl rfl).mpr ⟨by decide, by decide, rfl⟩

theorem next_epoch_unslashed :
    (singleVoteProof commitVote).validate doubleVoteCrypto 2 4 commitVote.blockHash [keyOnePkh] = .ok () ∧
      (singleVoteProof nextEpochVote).validate doubleVoteCrypto 2 4 nextEpochVote.blockHash [keyOnePkh] = .ok () ∧
      commitVote.blockHash ≠ nextEpochVote.blockHash ∧ commitVote.memberPkh = nextEpochVote.memberPkh ∧
      verifyFraudProof doubleVoteCrypto (.finalityEquivocation 2 (ByteVec.zero 20) commitVote nextEpochVote) 2 5 =
        .error "fraud proof: committee epoch mismatch" := by
  decide +kernel

end ChainState

end IriumConsensus
