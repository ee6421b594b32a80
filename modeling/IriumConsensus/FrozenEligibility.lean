import IriumConsensus.UndoExact
import IriumConsensus.Watermark

namespace IriumConsensus

open ByteCodec ProposerEligibilityRegistry

variable {C : Crypto} {E : NodeEnv}

namespace ProposerEligibilityRegistry

variable {g g' : ProposerEligibilityRegistry} {fd ew targetHeight : Nat}

theorem isEligibleWith_iff_heights (hfd : fd ≤ targetHeight) (key : PubKey33) :
    g.isEligibleWith key targetHeight fd ew ↔
      ∃ h ∈ g.heightsOf key, targetHeight - fd - (ew - 1) ≤ h ∧ h ≤ targetHeight - fd := by
  rw [isEligibleWith_iff, frozenWindowWith, if_neg (by omega)]
  simp

theorem eligibleCountWith_congr
    (h : ∀ key, g.isEligibleWith key targetHeight fd ew = g'.isEligibleWith key targetHeight fd ew) :
    g.eligibleCountWith targetHeight fd ew = g'.eligibleCountWith targetHeight fd ew := by
  rw [← eligibleCountWith_eq_card, ← eligibleCountWith_eq_card]
  congr 1
  ext key
  simp only [Finset.mem_filter]
  constructor
  · rintro ⟨-, helig⟩
    rw [h] at helig
    exact ⟨mem_keys_of_isEligibleWith _ _ _ helig, helig⟩
  · rintro ⟨-, helig⟩
    rw [← h] at helig
    exact ⟨mem_keys_of_isEligibleWith _ _ _ helig, helig⟩

end ProposerEligibilityRegistry

/-- The block at `height` of the main chain registers the key; genesis is put down without registering any. -/
def ChainState.RegisteredAt (C : Crypto) (E : NodeEnv) (s : ChainState) (key : PubKey33) (height : Nat) : Prop :=
  0 < height ∧ ∃ b, s.chain[height]? = some b ∧ key ∈ (registeredKeys C E b height).map Prod.fst

namespace ChainState

variable {s s' : ChainState}

theorem acceptBlock_registry (s : ChainState) (b : Block) (undo : BlockUndo) :
    (acceptBlock C E s b undo).proposerRegistry =
      s.proposerRegistry.registerAll (registeredKeys C E b s.height) s.height := by
  obtain ⟨mode, signal, hpoawx⟩ := acceptBlock_poawx (C := C) (E := E) s b undo
  rw [hpoawx]
  exact PoawxState.applyBlock_registry s.toPoawxState b s.height

theorem ReachableBy.registry_same {Offered : Nat → Block → Prop} (hs : ReachableBy C E Offered s) :
    Same s.proposerRegistry (replayRegistry C E s.chain.reverse) := by
  refine hs.invariant (P := fun s => Same s.proposerRegistry (replayRegistry C E s.chain.reverse))
    (fun _ _ _ _ h => (new_watermarked h).registry) ?_
  · intro s s' hw hr heffect
    cases heffect with
    | refused hm => exact hr
    | @accepted A b undo L hb hv ha hi =>
      have hpush := hr.push (by simpa using hw.nonempty) b
      rw [acceptBlock_chain_reverse, acceptBlock_registry]
      rw [List.length_reverse, ← hw.height] at hpush
      exact hpush
    | @popped tip undo ht =>
      obtain ⟨hsplit, hne, hlen⟩ := hw.tip_reverse ht
      obtain ⟨keys, hkeys, hrevert⟩ :=
        PoawxState.revertBlock_registry (C := C) (E := E) s.toPoawxState tip (s.height - 1)
      rw [popBlock_registry, hrevert]
      rw [← hlen] at hkeys ⊢
      rw [hsplit] at hr
      exact hr.pop hne hkeys
    | reindexed index anchors orphaned => exact hr

theorem Reachable.mem_heightsOf (hs : Reachable C E s) (key : PubKey33) (height : Nat) :
    height ∈ s.proposerRegistry.heightsOf key ↔ s.RegisteredAt C E key height := by
  rw [hs.registry_same.heights, mem_replayRegistry, List.reverse_reverse, RegisteredAt]

theorem RegisteredAt.congr {key : PubKey33} {height n : Nat} (hchain : s.chain.take n = s'.chain.take n)
    (hn : height < n) : s.RegisteredAt C E key height ↔ s'.RegisteredAt C E key height := by
  have hblock : s.chain[height]? = s'.chain[height]? := by
    rw [← List.getElem?_take_of_lt hn, hchain, List.getElem?_take_of_lt hn]
  rw [RegisteredAt, RegisteredAt, hblock]

/-- Who may propose at a height is read off the main chain up to the freeze, and off nothing above it. -/
theorem frozen_eligibility {fd ew targetHeight : Nat} (hew : 1 ≤ ew) (hfd : fd ≤ targetHeight)
    (hs : Reachable C E s) :
    (∀ key, s.proposerRegistry.isEligibleWith key targetHeight fd ew ↔
      ∃ h, targetHeight - fd + 1 - ew ≤ h ∧ h ≤ targetHeight - fd ∧ s.RegisteredAt C E key h) ∧
    ∀ s', Reachable C E s' → s.chain.take (targetHeight - fd + 1) = s'.chain.take (targetHeight - fd + 1) →
      (∀ key, s.proposerRegistry.isEligibleWith key targetHeight fd ew =
        s'.proposerRegistry.isEligibleWith key targetHeight fd ew) ∧
      s.proposerRegistry.eligibleCountWith targetHeight fd ew =
        s'.proposerRegistry.eligibleCountWith targetHeight fd ew := by
  have helig : ∀ t, Reachable C E t → ∀ key, t.proposerRegistry.isEligibleWith key targetHeight fd ew ↔
      ∃ h, targetHeight - fd + 1 - ew ≤ h ∧ h ≤ targetHeight - fd ∧ t.RegisteredAt C E key h := by
    intro t ht key
    have hlow : targetHeight - fd - (ew - 1) = targetHeight - fd + 1 - ew := by omega
    simp only [isEligibleWith_iff_heights hfd, ht.mem_heightsOf, hlow]
    exact exists_congr fun h => ⟨fun ⟨hr, hlo, hhi⟩ => ⟨hlo, hhi, hr⟩, fun ⟨hlo, hhi, hr⟩ => ⟨hr, hlo, hhi⟩⟩
  refine ⟨helig s hs, fun s' hs' hchain => ?_⟩
  have hsame : ∀ key, s.proposerRegistry.isEligibleWith key targetHeight fd ew =
      s'.proposerRegistry.isEligibleWith key targetHeight fd ew := by
    intro key
    rw [Bool.eq_iff_iff, helig s hs, helig s' hs']
    refine exists_congr fun h => and_congr_right fun _ => and_congr_right fun hhi => ?_
    exact RegisteredAt.congr hchain (Nat.lt_succ_of_le hhi)
  exact ⟨hsame, eligibleCountWith_congr hsame⟩

/-- A devnet on which proposers register from the first block on, with no proof that they may propose. -/
def registrationNode : NodeEnv :=
  { devnetNode with
    activationHeight := fun v => match v with
      | .proposerVrf | .proposerRegistration => some 1
      | _ => none }

def registrationParams : ChainParams := nodeParams registrationNode none none lockedGenesis

def keyOneRegistration : ProposerRegistrationV1 where
  vrfPubkey := keyOne
  anchorHeight := 0
  sybilNonce := ByteVec.zero 32
  sybilDigest := beVec 32 0x660cc88cd7bd155e2a7fa36bb62b227ac2c5de2457b6ad4d4be540b652b78a7e
  signature := beVec 64 0x08725bfbe04b3e0a539a7c681a6dabb10c7db7b335cb1a7239a426d3130dc97e265702875b35ea3ddde93421c4b33ac63721d381602620b93fbd712b1bdd87a5

def registrationCrypto : Crypto :=
  signedCrypto
    { digest := beVec 32 0xeefa388941c4ceb76551b8d43daf551317d6714ff4f3a12e451c593f8c6d09e5
      signature := keyOneRegistration.signature }

def firstOfTwo : Block := committeeBlock lockedGenesisHash 1767583931 1

def secondOfTwo : Block :=
  committeeBlock (beVec 32 0x3224e2d5ff9604977a419dd95e2fcc86a27a7609b4874bb46f70b1515e4c7add) 1767583932 3

def ownedProposal : Block := firstOfTwo.withExt { blankExt with proposerAssignment := some ⟨0, keyOneAssignment⟩ }

def unownedProposal : Block :=
  secondOfTwo.withExt
    { blankExt with proposerAssignment := some ⟨0, { keyOneAssignment with solverPkh := ByteVec.zero 20 }⟩ }

theorem frozen_eligibility_extended :
    ∃ s s', Reachable registrationCrypto registrationNode s ∧ Reachable registrationCrypto registrationNode s' ∧
      s.chain.length = 2 ∧ s'.chain.length = 3 ∧ s.proposerRegistry.isEligibleWith keyOne 3 2 1 ∧
      s'.proposerRegistry.isEligibleWith keyOne 3 2 1 := by
  obtain ⟨s, hs, hlen, hlen', htake, helig⟩ := exists_reachable_of_runOf
    (C := registrationCrypto) (E := registrationNode) quietAmbient registrationParams [ownedProposal]
    (fun s =>
      let s' := (connectBlock registrationCrypto registrationNode quietAmbient unownedProposal s).2
      s.chain.length = 2 ∧ s'.chain.length = 3 ∧ s.chain.take 2 = s'.chain.take 2 ∧
        s.proposerRegistry.isEligibleWith keyOne 3 2 1) (by decide +kernel)
  have hs' := ReachableBy.step hs (.connect s quietAmbient unownedProposal trivial)
  have hsame := ((frozen_eligibility (le_refl 1) (show 2 ≤ 3 by decide) hs).2 _ hs' htake).1 keyOne
  exact ⟨s, _, hs, hs', hlen, hlen', helig, hsame ▸ helig⟩

end ChainState

end IriumConsensus
