import Mathlib.Tactic.Ring
import IriumConsensus.Equivocation
import IriumConsensus.QuorumSound

namespace IriumConsensus

open ByteCodec Checks

namespace FinalityProofV1

def commitMembers (p : FinalityProofV1) : Finset Pkh :=
  ((p.votes.filter fun v => v.voteType = 1).map FinalityVoteV1.memberPkh).toFinset

variable {p : FinalityProofV1}

theorem mem_commitMembers {m : Pkh} :
    m ∈ p.commitMembers ↔ ∃ v ∈ p.votes, v.voteType = 1 ∧ v.memberPkh = m := by
  simp [commitMembers, and_assoc]

theorem commitMembers_card (hcanon : p.isCanonical) :
    p.commitMembers.card = p.commitVotes := by
  have hsorted := strictlyIncreasing_iff.mp hcanon
  have hnodup : (p.votes.map FinalityVoteV1.memberPkh).Nodup := by
    refine (List.pairwise_map.mp hsorted).imp ?_ |> List.pairwise_map.mpr
    intro v w hlt heq
    rw [heq] at hlt
    exact lt_irrefl _ hlt
  have hsub := (List.filter_sublist (p := fun v : FinalityVoteV1 => v.voteType = 1) (l := p.votes)).map
    FinalityVoteV1.memberPkh
  rw [commitMembers, List.toFinset_card_of_nodup (hnodup.sublist hsub), List.length_map, commitVotes]

theorem requiredVotes_two_thirds {n : Nat} (hn : 0 < n) (hthr : 2 * p.thresholdDen.toNat ≤ 3 * p.thresholdNum.toNat) :
    ceilDiv (2 * n) 3 ≤ p.requiredVotes n := by
  obtain ⟨num, hnum⟩ : ∃ num, max p.thresholdNum.toNat 1 = num := ⟨_, rfl⟩
  obtain ⟨den, hden⟩ : ∃ den, max p.thresholdDen.toNat 1 = den := ⟨_, rfl⟩
  have hratio : 2 * den ≤ 3 * num := by omega
  have hneeded := le_ceilDiv_mul (a := n * num) (b := den) (by omega)
  simp only [requiredVotes, hn.ne', if_false, hnum, hden]
  generalize ceilDiv (n * num) den = needed at hneeded ⊢
  have hscaled : 2 * n * den ≤ 3 * needed * den :=
    calc 2 * n * den = n * (2 * den) := by ring
      _ ≤ n * (3 * num) := Nat.mul_le_mul_left n hratio
      _ = 3 * (n * num) := by ring
      _ ≤ 3 * (needed * den) := Nat.mul_le_mul_left 3 hneeded
      _ = 3 * needed * den := by ring
  have hle : 2 * n ≤ 3 * needed := Nat.le_of_mul_le_mul_right hscaled (by omega)
  unfold ceilDiv
  omega

variable {C : Crypto} {networkId : UInt8} {height : Nat} {blockHash : Hash32} {committee : List Pkh}
  {p : FinalityProofV1}

theorem validate_quorum (h : p.validate C networkId height blockHash committee = .ok ()) :
    committee ≠ [] ∧ p.commitMembers ⊆ committee.toFinset ∧
      p.requiredVotes committee.length ≤ p.commitMembers.card := by
  simp only [validate, bind_eq_ok, exists_unit, failIf_eq_ok, checkAll_eq_ok, checkVote, not_lt, not_not,
    Bool.not_eq_false] at h
  obtain ⟨-, -, -, -, hcanon, hne, hvotes, hcount⟩ := h
  refine ⟨hne, fun m hm => ?_, (commitMembers_card hcanon).symm ▸ hcount⟩
  obtain ⟨v, hv, -, rfl⟩ := mem_commitMembers.mp hm
  exact List.mem_toFinset.mpr (hvotes v hv).2.2

end FinalityProofV1

/-- A verifying signature was made by the owner of a key with that hash. -/
def Unforgeable (C : Crypto) (signed : Pkh → Hash32 → Prop) : Prop :=
  ∀ key digest sig, C.verifyPrehash key digest sig → signed (hash160 C key) digest

theorem FinalityVoteV1.verify_signed {C : Crypto} {signed : Pkh → Hash32 → Prop} (hsig : Unforgeable C signed)
    {v : FinalityVoteV1} {networkId : UInt8} {height : Nat} {blockHash : Hash32}
    (h : v.verify C networkId height blockHash = .ok ()) :
    v.networkId = networkId ∧ signed v.memberPkh (v.digest C) := by
  simp only [FinalityVoteV1.verify, bind_eq_ok, exists_unit, failIf_eq_ok, not_not, Bool.not_eq_false] at h
  obtain ⟨-, hnet, -, -, -, hpkh, -, -, hver⟩ := h
  exact ⟨hnet, hpkh ▸ hsig _ _ _ hver⟩

/-- An accepted proof holds a quorum of signed commits, and two of them share more than a third of the committee. -/
theorem finality_proof_quorum {C : Crypto} {signed : Pkh → Hash32 → Prop} (hsig : Unforgeable C signed)
    {networkId : UInt8} {height : Nat} {blockHash : Hash32} {committee : List Pkh} (hnodup : committee.Nodup)
    {p : FinalityProofV1} (hp : p.validate C networkId height blockHash committee = .ok ()) :
    (p.commitMembers ⊆ committee.toFinset ∧ p.requiredVotes committee.length ≤ p.commitMembers.card ∧
      ∀ m ∈ p.commitMembers, ∃ v : FinalityVoteV1, signed m (v.digest C) ∧ v.memberPkh = m ∧ v.voteType = 1 ∧
        v.networkId = networkId ∧ v.targetHeight.toNat = height ∧ v.blockHash = blockHash ∧
        v.committeeEpoch = p.committeeEpoch) ∧
      ∀ {networkId' : UInt8} {height' : Nat} {blockHash' : Hash32} {q : FinalityProofV1},
        q.validate C networkId' height' blockHash' committee = .ok () →
        q.thresholdNum = p.thresholdNum → q.thresholdDen = p.thresholdDen →
        2 * p.thresholdDen.toNat ≤ 3 * p.thresholdNum.toNat →
        2 * ceilDiv (2 * committee.length) 3 - committee.length ≤ (p.commitMembers ∩ q.commitMembers).card ∧
          0 < 2 * ceilDiv (2 * committee.length) 3 - committee.length := by
  obtain ⟨hne, hsub, hquorum⟩ := FinalityProofV1.validate_quorum hp
  have hlen : 0 < committee.length := List.length_pos_iff.mpr hne
  refine ⟨⟨hsub, hquorum, fun m hm => ?_⟩, fun hq hnum hden hthr => ⟨?_, ?_⟩⟩
  · obtain ⟨v, hv, hcommit, rfl⟩ := FinalityProofV1.mem_commitMembers.mp hm
    obtain ⟨hverify, hepoch⟩ := FinalityProofV1.validate_vote hp hv
    obtain ⟨hheight, hhash⟩ := FinalityVoteV1.verify_bound hverify
    obtain ⟨hnet, hsigned⟩ := FinalityVoteV1.verify_signed hsig hverify
    exact ⟨v, hsigned, rfl, hcommit, hnet, hheight, hhash, hepoch⟩
  · obtain ⟨-, hsub', hquorum'⟩ := FinalityProofV1.validate_quorum hq
    have hfirst := FinalityProofV1.requiredVotes_two_thirds hlen hthr
    have hsecond := FinalityProofV1.requiredVotes_two_thirds hlen (hnum ▸ hden ▸ hthr)
    have hshared := card_add_card_sub_le hsub hsub'
    rw [List.toFinset_card_of_nodup hnodup] at hshared
    omega
  · unfold ceilDiv
    omega

namespace ChainState

def keyTwoPkh : Pkh := beVec 20 0x06afd46bcdfd22ef94ac122aa11f241244a37ecc

def keyThree : PubKey33 := beVec 33 0x02f9308a019258c31049344f85f89d5229b531c845836f99b08601f113bce036f9

def keyThreePkh : Pkh := beVec 20 0x7dd65592d0ab2fe0d0257d571abf032cd9db93dc

/-- The other two members beside `vote`, each with its own kind of vote and signature. -/
def panelVotes (vote : FinalityVoteV1) (two three : UInt8 × Nat) : List FinalityVoteV1 :=
  [{ vote with memberPubkey := keyTwo, memberPkh := keyTwoPkh, voteType := two.1, signature := beVec 64 two.2 }, vote,
    { vote with memberPubkey := keyThree, memberPkh := keyThreePkh, voteType := three.1, signature := beVec 64 three.2 }]

def panelProof : FinalityProofV1 :=
  { singleVoteProof commitVote with
    votes := panelVotes commitVote
      (1, 0xb356d57e273321ef8b8e0b79b5d9e9647dbf66fb72687eb87b1cab0b01d7fb3d342754113778c9660691ecbda180d4c4adfbaae2168c3d65b360c0ef7bc3a555)
      (0, 0xeb9265dbd01f3963c5bff88cbfc5e0bf63fe694f76660903abb7e421d0ff85c578cd455e442ca68fcebe84685fe8f4a429e0f830d19ebf16f1b9d83006661805) }

def rivalPanelProof : FinalityProofV1 :=
  { singleVoteProof sameEpochVote with
    votes := panelVotes sameEpochVote
      (2, 0x171eb78b1d021f5c5500b6e6df701858ad831fd59a181847d6967af04831a9767746e0903f9daf4d3a9135f38c54f5a8067b7f3f674a5daa85baafda54d6411f)
      (1, 0x6f19c78b41af6ceae443b6eec5693dd23086cbf420ae582c76760386e393938d0fbeb9d1a461e6d5e7a8d478e90bfa27bd3251517fe17e1202f453ca55ca7959) }

/-- The signatures are those of the votes of the two proofs. -/
def panelCrypto : Crypto :=
  let votes := panelProof.votes ++ rivalPanelProof.votes
  { shaCrypto with
    ripemd160 := fun bs => ((votes.find? fun v => bs = (Sha2.sha256 v.memberPubkey.bytes).bytes).map
      FinalityVoteV1.memberPkh).getD (ByteVec.zero 20)
    keyFromSec1 := fun bs => votes.any fun v => bs = v.memberPubkey.bytes
    sigFromSlice := fun signature => votes.any fun v => signature = v.signature
    verifyPrehash := fun pubkey digest signature => votes.any fun v =>
      pubkey = v.memberPubkey.bytes ∧ digest = v.digest shaCrypto ∧ signature = v.signature }

theorem finality_proof_quorum_panel :
    panelProof.commitMembers = {keyTwoPkh, keyOnePkh} ∧ rivalPanelProof.commitMembers = {keyOnePkh, keyThreePkh} ∧
      panelProof.requiredVotes 3 = 2 ∧ 0 < (panelProof.commitMembers ∩ rivalPanelProof.commitMembers).card := by
  let committee := [keyOnePkh, keyTwoPkh, keyThreePkh]
  have hp : panelProof.validate panelCrypto 2 4 commitVote.blockHash committee = .ok () := by decide +kernel
  have hq : rivalPanelProof.validate panelCrypto 2 4 sameEpochVote.blockHash committee = .ok () := by decide +kernel
  have hsig : Unforgeable panelCrypto fun m d => ∃ key sig, hash160 panelCrypto key = m ∧
      panelCrypto.verifyPrehash key d sig := fun key _ sig hv => ⟨key, sig, rfl, hv⟩
  have hnodup : committee.Nodup := by decide
  have hshared := (finality_proof_quorum hsig hnodup hp).2 hq rfl rfl (by decide)
  exact ⟨by decide, by decide, by decide, hshared.2.trans_le hshared.1⟩

end ChainState

end IriumConsensus
