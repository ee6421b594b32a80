import IriumConsensus.TxTree

namespace IriumConsensus

open ByteCodec MerkleBranch MerkleTree

variable (C : Crypto)

def verifyMerkleProof (txid merkleRoot : Hash32) (proof : List Hash32) (index : Nat) : Bool :=
  climb (merkleNode C) txid proof index = merkleRoot

namespace Block

variable (b : Block)

/-- The txids as `Block::merkle_root` hashes them. -/
def leaves : List Hash32 := b.transactions.map fun tx => (tx.txid C).reverse

def merkleDepth : Nat := Nat.clog 2 b.transactions.length

/-- The strings that are hashed for the root of the block, and along a path. -/
def hashedWith (value : Hash32) (path : List Hash32) (index : Nat) : Set Bytes :=
  Set.image pairBytes {p | p ∈ climbPairs (merkleNode C) value path index ∨
    p ∈ treePairs (merkleNode C) b.merkleDepth (b.leaves C)}

variable {C b}

theorem level_leaves (hne : b.transactions ≠ []) :
    (level (merkleNode C))^[b.merkleDepth] (b.leaves C) = [b.merkleRoot C] := by
  have hleaves : b.leaves C ≠ [] := by simpa [leaves] using hne
  have hlen : (b.leaves C).length = b.transactions.length := List.length_map _
  have h := merkleReduce_eq (C := C) hleaves hlen.le
  rwa [hlen] at h

/-- Each transaction is proved by the siblings of its leaf, and an accepted value is the leaf at its position. -/
theorem verifyMerkleProof_exact (hne : b.transactions ≠ []) :
    (∀ i tx, b.transactions[i]? = some tx →
        verifyMerkleProof C (tx.txid C).reverse (b.merkleRoot C)
          (siblingPath (merkleNode C) b.merkleDepth (b.leaves C) i) i) ∧
      b.leaves C <+: padded b.merkleDepth (b.leaves C) ∧
      ∀ i < 2 ^ b.merkleDepth, ∀ value path, path.length = b.merkleDepth →
        Set.InjOn (sha256d C) (b.hashedWith C value path i) →
        verifyMerkleProof C value (b.merkleRoot C) path i →
        (padded b.merkleDepth (b.leaves C))[i]? = some value := by
  have hroot := level_leaves (C := C) hne
  refine ⟨fun i tx htx => ?_, prefix_padded _ _, fun i hi value path hlen hinj hok => ?_⟩
  · have hleaf : (b.leaves C)[i]? = some (tx.txid C).reverse := by rw [leaves, List.getElem?_map, htx, Option.map_some]
    obtain ⟨hi, hget⟩ := List.getElem?_eq_some_iff.mp hleaf
    have hpadded := List.prefix_iff_getElem?.mp (prefix_padded b.merkleDepth (b.leaves C)) i hi
    rw [hget] at hpadded
    exact decide_eq_true (climb_siblingPath (merkleNode C) hroot hpadded).1
  · have hpos : i < (padded b.merkleDepth (b.leaves C)).length := by
      rw [padded_length (merkleNode C), hroot, List.length_singleton, Nat.mul_one]
      exact hi
    have hleaf := List.getElem?_eq_getElem hpos
    obtain ⟨hclimb, hdepth, hpairs⟩ := climb_siblingPath (merkleNode C) hroot hleaf
    have hnodes : Set.InjOn (Function.uncurry (merkleNode C)) _ :=
      (merkleNode_injOn hinj).mono (Set.subset_preimage_image _ _)
    have hvalue := climb_start_eq (merkleNode C) (hnodes.mono fun p hp => hp.imp_right (hpairs p))
      (hlen.trans hdepth.symm) rfl ((of_decide_eq_true hok).trans hclimb.symm)
    rw [hleaf, hvalue]

def threePayments : Block :=
  ⟨⟨1, ByteVec.zero 32, ByteVec.zero 32, 0, 0, 0⟩, [⟨1, [], [], 0⟩, ⟨1, [], [], 1⟩, ⟨1, [], [], 2⟩], none, none⟩

theorem verifyMerkleProof_exact_three :
    verifyMerkleProof shaCrypto (Transaction.txid shaCrypto ⟨1, [], [], 2⟩).reverse (threePayments.merkleRoot shaCrypto)
      (siblingPath (merkleNode shaCrypto) 2 (threePayments.leaves shaCrypto) 2) 2 :=
  (verifyMerkleProof_exact (C := shaCrypto) (b := threePayments) (List.cons_ne_nil _ _)).1 2 ⟨1, [], [], 2⟩ rfl

end Block

end IriumConsensus
