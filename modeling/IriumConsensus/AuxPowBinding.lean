import IriumConsensus.AuxPow
import IriumConsensus.RealHash

namespace IriumConsensus

open ByteCodec Checks MerkleBranch

variable (C : Crypto)

def pairBytes (p : Hash32 × Hash32) : Bytes := p.1.bytes ++ p.2.bytes

theorem pairBytes_injective : Function.Injective pairBytes := by
  intro p q h
  have hlen : p.1.bytes.length = q.1.bytes.length := by simp
  obtain ⟨h1, h2⟩ := List.append_inj h hlen
  exact Prod.ext (ByteVec.ext h1) (ByteVec.ext h2)

def coinbasePairs (ap : AuxPow) : List (Hash32 × Hash32) :=
  climbPairs (merkleNode C) (sha256d C ap.coinbaseTxn) ap.coinbaseBranch ap.coinbaseBranchIndex.toNat

def blockchainPairs (ap : AuxPow) (auxHeaderBytes : Bytes) : List (Hash32 × Hash32) :=
  climbPairs (merkleNode C) (sha256d C auxHeaderBytes) ap.blockchainBranch ap.blockchainBranchIndex.toNat

def AuxPow.singleChain (ap : AuxPow) : Prop :=
  ∃ root, findCommitment ap.coinbaseTxn = .ok (root, 1)

/-- The byte strings hashed for the commitment and the Merkle branches of a proof; the
branch of the merge-mined set is not climbed when the coinbase commits to one chain. -/
def AuxPow.hashedInputs (ap : AuxPow) (auxHeaderBytes : Bytes) : Set Bytes :=
  {bs | bs = auxHeaderBytes ∨ bs = ap.coinbaseTxn ∨ (∃ p ∈ coinbasePairs C ap, bs = pairBytes p) ∨
    (¬ap.singleChain ∧ ∃ p ∈ blockchainPairs C ap auxHeaderBytes, bs = pairBytes p)}

/-- Both coinbases stand at the same leaf of the parent's transaction tree. -/
def AuxPow.SameCoinbasePosition (ap bp : AuxPow) : Prop :=
  ap.coinbaseBranch.length = bp.coinbaseBranch.length ∧
    ap.coinbaseBranchIndex.toNat % 2 ^ ap.coinbaseBranch.length =
      bp.coinbaseBranchIndex.toNat % 2 ^ ap.coinbaseBranch.length

/-- The path from the root to the slot of `bp` leads on to the slot of `ap`. -/
def AuxPow.SlotBelow (ap bp : AuxPow) : Prop :=
  bp.blockchainBranch.length ≤ ap.blockchainBranch.length ∧
    ap.blockchainBranchIndex.toNat / 2 ^ (ap.blockchainBranch.length - bp.blockchainBranch.length) %
      2 ^ bp.blockchainBranch.length =
      bp.blockchainBranchIndex.toNat % 2 ^ bp.blockchainBranch.length

variable {C} {ap bp : AuxPow} {aux a b : Bytes}

theorem merkleNode_injOn {S : Set Bytes} (inj : Set.InjOn (sha256d C) S) :
    Set.InjOn (Function.uncurry (merkleNode C)) (Set.preimage pairBytes S) :=
  fun _ hp _ hq h => pairBytes_injective (inj hp hq h)

theorem auxpowValidate_ok {target : Target} (h : auxpowValidate C ap aux target = .ok ()) :
    aux.length = 80 ∧ (∃ found, findCommitment ap.coinbaseTxn = .ok found ∧
      checkCommitment C ap (sha256d C aux) found.1 found.2 = .ok ()) ∧
    computeMerkleRoot C (sha256d C ap.coinbaseTxn) ap.coinbaseBranch ap.coinbaseBranchIndex =
      ap.parentMerkleRoot := by
  simp only [auxpowValidate, validateWithParentHash, bind_eq_ok, exists_unit, failIf_eq_ok,
    not_not] at h
  obtain ⟨hlen, _, _, found, hfound, hcheck, hroot, _⟩ := h
  exact ⟨hlen, ⟨found, hfound, hcheck⟩, hroot⟩

theorem coinbase_eq_of_same_position (inj : Set.InjOn (sha256d C) (ap.hashedInputs C a ∪ bp.hashedInputs C b))
    (hpos : ap.SameCoinbasePosition bp)
    (hroot : computeMerkleRoot C (sha256d C ap.coinbaseTxn) ap.coinbaseBranch ap.coinbaseBranchIndex = computeMerkleRoot C (sha256d C bp.coinbaseTxn) bp.coinbaseBranch bp.coinbaseBranchIndex) :
    ap.coinbaseTxn = bp.coinbaseTxn := by
  have hleaf := climb_start_eq (merkleNode C) ((merkleNode_injOn inj).mono ?_) hpos.1 hpos.2 hroot
  · exact inj (Or.inl (Or.inr (Or.inl rfl))) (Or.inr (Or.inr (Or.inl rfl))) hleaf
  · intro p hp
    exact hp.imp (fun h => Or.inr (Or.inr (Or.inl ⟨p, h, rfl⟩)))
      (fun h => Or.inr (Or.inr (Or.inl ⟨p, h, rfl⟩)))

theorem header_eq_of_slotBelow (hb : b.length = 80)
    (inj : Set.InjOn (sha256d C) (ap.hashedInputs C a ∪ bp.hashedInputs C b)) (hap : ¬ap.singleChain)
    (hbp : ¬bp.singleChain) (hslot : ap.SlotBelow bp)
    (hroot : computeMerkleRoot C (sha256d C a) ap.blockchainBranch ap.blockchainBranchIndex = computeMerkleRoot C (sha256d C b) bp.blockchainBranch bp.blockchainBranchIndex) :
    a = b := by
  have hjoin := climb_joins (merkleNode C) ((merkleNode_injOn inj).mono ?_) hslot.1 hslot.2 hroot
  · by_cases hk : ap.blockchainBranch.take
        (ap.blockchainBranch.length - bp.blockchainBranch.length) = []
    · rw [hk] at hjoin
      exact inj (Or.inl (Or.inl rfl)) (Or.inr (Or.inl rfl)) hjoin
    · obtain ⟨p, hp, he⟩ := exists_pair_of_climb (merkleNode C) hk (sha256d C a)
        ap.blockchainBranchIndex.toNat
      have hmem : p ∈ blockchainPairs C ap a := by
        unfold blockchainPairs
        rw [← List.take_append_drop (ap.blockchainBranch.length - bp.blockchainBranch.length)
          ap.blockchainBranch, climbPairs_append]
        exact List.mem_append_left _ hp
      have hhash : sha256d C (pairBytes p) = sha256d C b := he.symm.trans hjoin
      have hbytes := inj (Or.inl (Or.inr (Or.inr (Or.inr ⟨hap, p, hmem, rfl⟩)))) (Or.inr (Or.inl rfl)) hhash
      have hlen : (pairBytes p).length = 64 := by simp [pairBytes]
      rw [hbytes] at hlen
      omega
  · intro p hp
    exact hp.imp (fun h => Or.inr (Or.inr (Or.inr ⟨hap, p, h, rfl⟩)))
      (fun h => Or.inr (Or.inr (Or.inr ⟨hbp, p, h, rfl⟩)))

/-- Without collisions, proofs on one parent header that name the same coinbase and slots on
one path of the committed tree attest the same header. -/
theorem auxpow_attests_one_header {ap bp : AuxPow} {a b : Bytes} {target : Target}
    (inj : Set.InjOn (sha256d C) (ap.hashedInputs C a ∪ bp.hashedInputs C b))
    (hparent : ap.parentHeader = bp.parentHeader)
    (ha : auxpowValidate C ap a target = .ok ()) (hb : auxpowValidate C bp b target = .ok ())
    (hcoinbase : ap.coinbaseTxn = bp.coinbaseTxn ∨ ap.SameCoinbasePosition bp)
    (hslot : ¬ap.singleChain → ap.SlotBelow bp ∨ bp.SlotBelow ap) : a = b := by
  obtain ⟨hla, ⟨⟨root, count⟩, hfa, hca⟩, hra⟩ := auxpowValidate_ok ha
  obtain ⟨hlb, ⟨found, hfb, hcb⟩, hrb⟩ := auxpowValidate_ok hb
  have hroots : ap.parentMerkleRoot = bp.parentMerkleRoot := by
    simp [AuxPow.parentMerkleRoot, hparent]
  have htxn : ap.coinbaseTxn = bp.coinbaseTxn :=
    hcoinbase.elim id (fun hpos => coinbase_eq_of_same_position inj hpos (by rw [hra, hrb, hroots]))
  rw [← htxn, hfa] at hfb
  cases Except.ok.inj hfb
  simp only [checkCommitment, bind_eq_ok, exists_unit, failIf_eq_ok] at hca hcb
  by_cases hone : count = 1
  · simp only [hone, ↓reduceIte, failIf_eq_ok, not_not] at hca hcb
    have hhash := ByteVec.reverse_injective (hca.2.symm.trans hcb.2)
    exact inj (Or.inl (Or.inl rfl)) (Or.inr (Or.inl rfl)) hhash
  · simp only [hone, ↓reduceIte, bind_eq_ok, exists_unit, failIf_eq_ok, not_not] at hca hcb
    have hcommitted := ByteVec.reverse_injective (hca.2.2.trans hcb.2.2.symm)
    have hap : ¬ap.singleChain := by
      rintro ⟨r, hr⟩
      rw [hfa] at hr
      exact hone (Prod.mk.inj (Except.ok.inj hr)).2
    have hbp : ¬bp.singleChain := by rwa [AuxPow.singleChain, ← htxn]
    rcases hslot hap with below | below
    · exact header_eq_of_slotBelow hlb inj hap hbp below hcommitted
    · exact (header_eq_of_slotBelow hla (by rwa [Set.union_comm]) hbp hap below hcommitted.symm).symm

def twinHeader (m : UInt8) : Bytes :=
  le32 0x101 ++ List.replicate 32 0 ++ List.replicate 32 m ++ le32 1700000000 ++ le32 0x207fffff ++ le32 0

def twinHash₁ : Hash32 := beVec 32 0x89bd598e2668c528d24dfd358b7c64d4dc496f9a9ab395b7c0046cdd93f23401
def twinHash₂ : Hash32 := beVec 32 0x5851af632e45e2503f17e9bb043e409e0062229516340a87a8d18ec27fc174d2

def twinCoinbase : Bytes :=
  auxpowCommitMagic ++
    (beVec 32 0x3c49d0d8e05814d84f219a100ff08d208687738e5b88811b8619a100234a8d06).reverse.bytes ++
    le32 2 ++ le32 0

def twinParent : ByteVec 80 where
  bytes := le32 0x20000000 ++ List.replicate 32 0 ++
    (beVec 32 0x27994b5c70c2a64e18503c90d7a4c01db060f3d9922863ab38ac5a00c6887bcc).bytes ++
    le32 1700000000 ++ le32 0x207fffff ++ le32 0
  length_eq := by decide

def twinProof (other : Hash32) (index : UInt32) : AuxPow where
  coinbaseTxn := twinCoinbase
  parentHash := ByteVec.zero 32
  coinbaseBranch := []
  coinbaseBranchIndex := 0
  blockchainBranch := [other]
  blockchainBranchIndex := index
  parentHeader := twinParent

def twinTarget : Target := ⟨0x207fffff⟩

theorem twin_validates : auxpowValidate shaCrypto (twinProof twinHash₂ 0) (twinHeader 1) twinTarget = .ok () ∧
    auxpowValidate shaCrypto (twinProof twinHash₁ 1) (twinHeader 2) twinTarget = .ok () := by
  decide +kernel

def twinInputs : List Bytes :=
  [twinHeader 1, twinHeader 2, twinCoinbase, pairBytes (twinHash₁, twinHash₂)]

theorem twinInputs_injOn : Set.InjOn (sha256d shaCrypto) {bs | bs ∈ twinInputs} := by
  have hn : (twinInputs.map (sha256d shaCrypto)).Nodup := by decide +kernel
  exact fun x hx y hy h => List.inj_on_of_nodup_map hn hx hy h

theorem twin_hashedInputs {other : Hash32} {index : UInt32} (ha : aux ∈ twinInputs)
    (hp : blockchainPairs shaCrypto (twinProof other index) aux = [(twinHash₁, twinHash₂)]) :
    (twinProof other index).hashedInputs shaCrypto aux ⊆ {bs | bs ∈ twinInputs} := by
  rintro bs (rfl | rfl | ⟨p, hm, rfl⟩ | ⟨-, p, hm, rfl⟩)
  · exact ha
  · simp [twinInputs, twinProof]
  · simp [coinbasePairs, twinProof, climbPairs] at hm
  · rw [hp] at hm
    simp [twinInputs, List.mem_singleton.mp hm]

theorem twin_pairs : blockchainPairs shaCrypto (twinProof twinHash₂ 0) (twinHeader 1) = [(twinHash₁, twinHash₂)] ∧
    blockchainPairs shaCrypto (twinProof twinHash₁ 1) (twinHeader 2) = [(twinHash₁, twinHash₂)] := by
  decide +kernel

theorem twin_hashedInputs₁ :
    (twinProof twinHash₂ 0).hashedInputs shaCrypto (twinHeader 1) ⊆ {bs | bs ∈ twinInputs} :=
  twin_hashedInputs (by simp [twinInputs]) twin_pairs.1

theorem twin_hashedInputs₂ :
    (twinProof twinHash₁ 1).hashedInputs shaCrypto (twinHeader 2) ⊆ {bs | bs ∈ twinInputs} :=
  twin_hashedInputs (by simp [twinInputs]) twin_pairs.2

theorem auxpow_two_slots_two_headers :
    ∃ (ap bp : AuxPow) (a b : Bytes) (target : Target),
      Set.InjOn (sha256d shaCrypto) (ap.hashedInputs shaCrypto a ∪ bp.hashedInputs shaCrypto b) ∧
      ap.parentHeader = bp.parentHeader ∧ auxpowValidate shaCrypto ap a target = .ok () ∧
      auxpowValidate shaCrypto bp b target = .ok () ∧ a ≠ b :=
  ⟨twinProof twinHash₂ 0, twinProof twinHash₁ 1, twinHeader 1, twinHeader 2, twinTarget,
    twinInputs_injOn.mono (Set.union_subset twin_hashedInputs₁ twin_hashedInputs₂), rfl,
    twin_validates.1, twin_validates.2, by decide⟩

/-- Without a branch the coinbase may be said to stand anywhere, which gives another proof of the same header. -/
def movedProof : AuxPow := { twinProof twinHash₂ 0 with coinbaseBranchIndex := 1, parentHash := twinHash₁ }

theorem auxpow_attests_one_header_in_slot_zero :
    twinProof twinHash₂ 0 ≠ movedProof ∧ auxpowValidate shaCrypto (twinProof twinHash₂ 0) (twinHeader 1) twinTarget = .ok () ∧
      auxpowValidate shaCrypto movedProof (twinHeader 1) twinTarget = .ok () ∧ twinHeader 1 = twinHeader 1 := by
  have hmoved : auxpowValidate shaCrypto movedProof (twinHeader 1) twinTarget = .ok () := by decide +kernel
  have hinputs : movedProof.hashedInputs shaCrypto (twinHeader 1) ⊆ {bs | bs ∈ twinInputs} := twin_hashedInputs₁
  exact ⟨by decide, twin_validates.1, hmoved, auxpow_attests_one_header
    (twinInputs_injOn.mono (Set.union_subset twin_hashedInputs₁ hinputs)) rfl
    twin_validates.1 hmoved (Or.inl rfl) (fun _ => Or.inl ⟨le_rfl, by decide⟩)⟩

end IriumConsensus
