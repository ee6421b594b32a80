import IriumConsensus.Watermark

namespace IriumConsensus

open ByteCodec Checks ProposerEligibilityRegistry ChainState

variable {C : Crypto} {E : NodeEnv} {A : Ambient} {a b height : Nat} {p : FinalityProofV1}

theorem le_ceilDiv_mul (hb : 0 < b) : a ≤ ceilDiv a b * b := by
  have h := Nat.lt_div_mul_add (a := a + b - 1) hb
  unfold ceilDiv
  omega

theorem ceilDiv_two_mul_le (hb : 0 < b) : ceilDiv (2 * a) b ≤ 2 * ceilDiv a b := by
  have h := le_ceilDiv_mul (a := a) hb
  have hlt : 2 * a + b - 1 < (2 * ceilDiv a b + 1) * b := by
    have hexp : (2 * ceilDiv a b + 1) * b = 2 * (ceilDiv a b * b) + b := by
      rw [Nat.add_mul, Nat.mul_assoc, Nat.one_mul]
    omega
  have hdiv := (Nat.div_lt_iff_lt_mul hb).mpr hlt
  unfold ceilDiv at hdiv ⊢
  omega

theorem card_add_card_sub_le {α : Type} [DecidableEq α] {s t u : Finset α} (hs : s ⊆ u) (ht : t ⊆ u) :
    s.card + t.card - u.card ≤ (s ∩ t).card := by
  have hunion := Finset.card_le_card (Finset.union_subset hs ht)
  have hsum := Finset.card_union_add_card_inter s t
  omega

theorem finalityThreshold_pos : 0 < (finalityThreshold E).1 ∧ 0 < (finalityThreshold E).2 := by
  have hpos : ∀ (x : Option Nat) (d : Nat), 0 < d → 0 < positiveOr x d := by
    intro x d hd
    cases x with
    | none => simpa [positiveOr] using hd
    | some n => cases n <;> simp [positiveOr, Option.filter, hd]
  exact ⟨hpos _ 2 (by decide), hpos _ 3 (by decide)⟩

def FinalityProofV1.commitKeys (p : FinalityProofV1) : Finset PubKey33 :=
  ((p.votes.filter fun v => v.voteType = 1).map FinalityVoteV1.memberPubkey).toFinset

def committeeVoters (E : NodeEnv) (g : ProposerEligibilityRegistry) (height : Nat) (p : FinalityProofV1) :
    Finset PubKey33 :=
  p.commitKeys ∩ g.eligibleKeys E (height - 1)

/-- The block at `height` carries signed votes of a quorum of the committee for its parent. -/
structure QuorumCertified (C : Crypto) (E : NodeEnv) (g : ProposerEligibilityRegistry) (b : Block) (height : Nat)
    (p : FinalityProofV1) : Prop where
  carried : blockFinalityProof b = some p
  signed : ∀ v ∈ p.votes, v.verify C (networkIdByte E) height b.header.prevHash = .ok ()
  quorum : ceilDiv (g.eligibleCount E (height - 1) * (finalityThreshold E).1) (finalityThreshold E).2 ≤
    (committeeVoters E g height p).card

def VotersEligible (E : NodeEnv) (g : ProposerEligibilityRegistry) (b : Block) (height : Nat) : Prop :=
  ∀ p ∈ blockFinalityProof b, ∀ key ∈ p.commitKeys, g.isRegistered key →
    g.isEligible E key (height - 1)

instance (E : NodeEnv) (g : ProposerEligibilityRegistry) (b : Block) (height : Nat) :
    Decidable (VotersEligible E g b height) :=
  inferInstanceAs (Decidable (∀ p ∈ blockFinalityProof b, ∀ key ∈ p.commitKeys, _ = _ → _ = _))

theorem checkExtFinality_ok {b : Block} {p : PoawxBlockReceipt × Phase20ReceiptExt}
    (h : checkExtFinality C E b height p = .ok ()) :
    ∃ fp, p.2.finalityProof = some fp ∧
      (fp.thresholdNum.toNat, fp.thresholdDen.toNat) = finalityThreshold E ∧
      ∀ v ∈ fp.votes, v.verify C (networkIdByte E) height b.header.prevHash = .ok () := by
  simp only [checkExtFinality, FinalityProofV1.validate, FinalityProofV1.checkVote, bind_eq_ok, exists_unit,
    orFail_eq_ok, failIf_eq_ok, checkAll_eq_ok, not_or, not_not] at h
  obtain ⟨fp, hfp, cs, -, hthr, hval, -⟩ := h
  obtain ⟨-, -, -, -, -, -, hvotes, -⟩ := hval
  exact ⟨fp, hfp, Prod.ext hthr.1 hthr.2, fun v hv => (hvotes v hv).1⟩

theorem blockFinalityProof_checked {b : Block} (h : validateBlockFinality C E b height = .ok ())
    (hp : blockFinalityProof b = some p) :
    (p.thresholdNum.toNat, p.thresholdDen.toNat) = finalityThreshold E ∧
      ∀ v ∈ p.votes, v.verify C (networkIdByte E) height b.header.prevHash = .ok () := by
  obtain ⟨q, hq, hproof⟩ := List.exists_of_findSome?_eq_some hp
  obtain ⟨fp, hfp, hthr, hvotes⟩ := checkExtFinality_ok (checkAll_eq_ok.mp h q hq)
  cases Option.some.inj (hproof.symm.trans hfp)
  exact ⟨hthr, hvotes⟩

theorem QuorumCertified.overlap {g g' : ProposerEligibilityRegistry} {q : FinalityProofV1} {b c : Block}
    (hp : QuorumCertified C E g b height p) (hq : QuorumCertified C E g' c height q)
    (hsame : g.eligibleKeys E (height - 1) = g'.eligibleKeys E (height - 1)) :
    ceilDiv (2 * (g.eligibleCount E (height - 1) * (finalityThreshold E).1)) (finalityThreshold E).2 -
        g.eligibleCount E (height - 1) ≤
      (committeeVoters E g height p ∩ committeeVoters E g' height q).card := by
  have hcard := card_add_card_sub_le (s := committeeVoters E g height p) (t := committeeVoters E g' height q)
    Finset.inter_subset_right (hsame ▸ Finset.inter_subset_right)
  have hcount : g'.eligibleCount E (height - 1) = g.eligibleCount E (height - 1) := by
    rw [← eligibleKeys_card, ← eligibleKeys_card, hsame]
  have hpq := hp.quorum
  have hqq := hq.quorum
  have htwo := ceilDiv_two_mul_le (a := g.eligibleCount E (height - 1) * (finalityThreshold E).1)
    (finalityThreshold_pos (E := E)).2
  rw [hcount] at hqq
  rw [eligibleKeys_card] at hcard
  omega

namespace ChainState

variable {s s' : ChainState} {b : Block}

/-- The registry with the registrations of the block that comes next. -/
def registryWith (C : Crypto) (E : NodeEnv) (s : ChainState) (b : Block) : ProposerEligibilityRegistry :=
  s.proposerRegistry.registerAll (registeredKeys C E b s.height) s.height

theorem connectBlock_advances (hconn : connectBlock C E A b s = (.ok (), s'))
    (hhard : forkChoiceHardeningActive E s.height) (hadv : s.finalizedHeight < s'.finalizedHeight) :
    s'.proposerRegistry = registryWith C E s b ∧ validateBlockFinality C E b s.height = .ok () ∧
      genuineQuorum E s'.proposerRegistry b s.height := by
  obtain ⟨hvalid, undo, L, -, -, rfl⟩ := connectBlock_eq_ok.mp hconn
  obtain ⟨-, hreg, hfinal⟩ := acceptBlock_watermark (C := C) (E := E) (s.setLedger L) b undo
  rw [hfinal] at hadv
  split_ifs at hadv with hcond
  · simp only [setLedger, hhard, Bool.not_true, Bool.false_or, Bool.and_eq_true] at hcond
    refine ⟨hreg, ?_, ?_⟩
    · simp only [validateBlock, validatePoawxBlock, bind_eq_ok, exists_unit, checkWhen_eq_ok] at hvalid
      obtain ⟨-, -, -, -, -, -, hfin, -⟩ := hvalid
      exact hfin hcond.1
    · rw [hreg]
      exact hcond.2
  · exact absurd hadv (lt_irrefl _)

theorem genuineQuorum_certified {g : ProposerEligibilityRegistry} {height : Nat}
    (hvalid : validateBlockFinality C E b height = .ok ()) (hgen : genuineQuorum E g b height)
    (hel : VotersEligible E g b height) : ∃ p, QuorumCertified C E g b height p := by
  unfold genuineQuorum at hgen
  cases hp : blockFinalityProof b with
  | none => simp [hp] at hgen
  | some p =>
    obtain ⟨hthr, hsigned⟩ := blockFinalityProof_checked hvalid hp
    obtain ⟨hnum, hden⟩ := finalityThreshold_pos (E := E)
    simp only [hp, decide_eq_true_eq] at hgen
    rw [← hthr] at hnum hden
    rw [max_eq_left hnum, max_eq_left hden] at hgen
    refine ⟨p, hp, hsigned, ?_⟩
    rw [← hthr]
    refine hgen.2.trans (Finset.card_le_card fun key hkey => ?_)
    simp only [List.mem_toFinset, List.mem_map, List.mem_filter, Bool.and_eq_true, decide_eq_true_eq] at hkey
    obtain ⟨v, ⟨hv, hcommit, hregistered⟩, rfl⟩ := hkey
    have hkeys : v.memberPubkey ∈ p.commitKeys := by
      simp only [FinalityProofV1.commitKeys, List.mem_toFinset, List.mem_map, List.mem_filter, decide_eq_true_eq]
      exact ⟨v, ⟨hv, hcommit⟩, rfl⟩
    exact Finset.mem_inter.mpr ⟨hkeys, mem_eligibleKeys.mpr (hel p hp _ hkeys hregistered)⟩

/-- When every registered voter belongs to the committee, a block moves the watermark under hardening
only with the signed votes of a quorum of it, and two such blocks share voters. -/
theorem finality_quorum_sound (hconn : connectBlock C E A b s = (.ok (), s'))
    (hhard : forkChoiceHardeningActive E s.height) (hadv : s.finalizedHeight < s'.finalizedHeight)
    (hel : VotersEligible E (registryWith C E s b) b s.height) :
    ∃ p, QuorumCertified C E s'.proposerRegistry b s.height p ∧
      ∀ A' t t' c, connectBlock C E A' c t = (.ok (), t') → t.height = s.height →
        t.finalizedHeight < t'.finalizedHeight → VotersEligible E (registryWith C E t c) c t.height →
        s'.proposerRegistry.eligibleKeys E (s.height - 1) = t'.proposerRegistry.eligibleKeys E (s.height - 1) →
        ∃ q, QuorumCertified C E t'.proposerRegistry c t.height q ∧
          ceilDiv (2 * (s'.proposerRegistry.eligibleCount E (s.height - 1) * (finalityThreshold E).1))
              (finalityThreshold E).2 - s'.proposerRegistry.eligibleCount E (s.height - 1) ≤
            (committeeVoters E s'.proposerRegistry s.height p ∩
              committeeVoters E t'.proposerRegistry s.height q).card := by
  obtain ⟨hreg, hvalid, hgen⟩ := connectBlock_advances hconn hhard hadv
  obtain ⟨p, hp⟩ := genuineQuorum_certified hvalid hgen (hreg ▸ hel)
  refine ⟨p, hp, fun A' t t' c hconn' hheight hadv' hel' hsame => ?_⟩
  obtain ⟨hreg', hvalid', hgen'⟩ := connectBlock_advances hconn' (hheight ▸ hhard) hadv'
  obtain ⟨q, hq⟩ := genuineQuorum_certified hvalid' hgen' (hreg' ▸ hel')
  refine ⟨q, hq, ?_⟩
  rw [hheight] at hq
  exact hp.overlap hq hsame

theorem finalized_branch_certified :
    ∃ (s s' : ChainState) (p : FinalityProofV1), Reachable committeeCrypto committeeNode s ∧
      s.finalizedHeight < s'.finalizedHeight ∧
      QuorumCertified committeeCrypto committeeNode s'.proposerRegistry finalizingBlock s.height p := by
  obtain ⟨s, hs, hok, hadv, hel⟩ := exists_reachable_of_runOf (C := committeeCrypto) (E := committeeNode)
    quietAmbient committeeParams (finalizedBranch.take 3).reverse
    (fun s => (connectBlock committeeCrypto committeeNode quietAmbient finalizingBlock s).1 = .ok () ∧
      s.finalizedHeight <
        (connectBlock committeeCrypto committeeNode quietAmbient finalizingBlock s).2.finalizedHeight ∧
      VotersEligible committeeNode (registryWith committeeCrypto committeeNode s finalizingBlock) finalizingBlock
        s.height) (by decide +kernel)
  obtain ⟨p, hp, -⟩ := finality_quorum_sound (Prod.ext hok rfl) rfl hadv hel
  exact ⟨s, _, p, hs, hadv, hp⟩

def keyTwo : PubKey33 := beVec 33 0x02c6047f9441ed7d6d3045406e95c07cd85c778e4b8cef3ca7abac09b95c709ee5

/-- The first block registers another key, which makes the committee. -/
def otherCommittee : List Block :=
  [(committeeBlock lockedGenesisHash 1767583931 1).withExt
      { blankExt with
        proposerAssignment := some ⟨0, { keyOneAssignment with assignmentPublicKey := keyTwo }⟩ }] ++
    (finalizedBranch.take 3).drop 1

/-- The voter is registered by the very block that carries its vote. -/
def selfFinalizingBlock : Block :=
  (committeeBlock commitVote.blockHash 1767583934 0).withExt
    { finalityExt with proposerAssignment := some ⟨0, keyOneAssignment⟩ }

/-- The watermark moves although no member of the committee has voted. -/
theorem finalized_without_committee :
    ∃ (s s' : ChainState), Reachable committeeCrypto committeeNode s ∧
      connectBlock committeeCrypto committeeNode quietAmbient selfFinalizingBlock s = (.ok (), s') ∧
      forkChoiceHardeningActive committeeNode s.height ∧ s.finalizedHeight < s'.finalizedHeight ∧
      ∃ p ∈ blockFinalityProof selfFinalizingBlock,
        (committeeVoters committeeNode s'.proposerRegistry s.height p).card <
          ceilDiv (s'.proposerRegistry.eligibleCount committeeNode (s.height - 1) * (finalityThreshold committeeNode).1)
            (finalityThreshold committeeNode).2 := by
  obtain ⟨s, hs, hok, hrest⟩ := exists_reachable_of_runOf (C := committeeCrypto) (E := committeeNode) quietAmbient
    committeeParams otherCommittee.reverse
    (fun s => let r := connectBlock committeeCrypto committeeNode quietAmbient selfFinalizingBlock s
      r.1 = .ok () ∧ forkChoiceHardeningActive committeeNode s.height ∧
        s.finalizedHeight < r.2.finalizedHeight ∧ ∃ p ∈ blockFinalityProof selfFinalizingBlock,
        (committeeVoters committeeNode r.2.proposerRegistry s.height p).card <
          ceilDiv (r.2.proposerRegistry.eligibleCount committeeNode (s.height - 1) *
            (finalityThreshold committeeNode).1) (finalityThreshold committeeNode).2) (by decide +kernel)
  exact ⟨s, _, hs, Prod.ext hok rfl, hrest⟩

end ChainState

end IriumConsensus
