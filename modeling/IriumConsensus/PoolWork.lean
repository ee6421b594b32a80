import IriumConsensus.TxTree

namespace IriumConsensus

open ByteCodec Checks MerkleTree

structure CanonicalJobSnapshot where
  height : Nat
  prevHashInternal : Hash32
  bits : UInt32

/-- `override` is `IRIUM_STANDARD_HEADER_ACTIVATION_HEIGHT`, where it is set and a number. -/
def resolveStandardHeaderActivation (network : NetworkKind) (override : Option Nat) : Nat :=
  match network with
  | .mainnet => 22888
  | .testnet | .devnet => override.getD 1

def NodeEnv.withResolvedHeaders (E : NodeEnv) (override : Option Nat) : NodeEnv :=
  { E with standardHeaderActivationHeight := resolveStandardHeaderActivation (networkKind E) override }

def poolStandardHeaderActivationHeight (network : NetworkVar) (override : Option Nat) : Nat :=
  let isMainnet := match network with
    | .testnet | .devnet | .devnetAlias => false
    | .mainnet => true
  if isMainnet then 22888 else override.getD 1

variable (C : Crypto)

def branchSibling (idx : Nat) (level : List Hash32) : Hash32 :=
  if idx % 2 = 0 then
    if idx + 1 < level.length then level.getD (idx + 1) (ByteVec.zero 32) else level.getD idx (ByteVec.zero 32)
  else level.getD (idx - 1) (ByteVec.zero 32)

theorem merkleLevel_length (level : List Hash32) : (merkleLevel C level).length = (level.length + 1) / 2 := by
  rw [merkleLevel_eq, level_length]

def branchesFrom (idx : Nat) (level : List Hash32) : List Hash32 :=
  if 1 < level.length then branchSibling idx level :: branchesFrom (idx / 2) (merkleLevel C level) else []
  termination_by level.length
  decreasing_by
    rw [merkleLevel_length]
    omega

/-- The place of the coinbase is taken by a zero hash. -/
def buildMerkleBranches (templateTxHex : List String) : Except String (List Hash32) := do
  let raws ← templateTxHex.mapM fun h => orFail (decodeHex h) "template tx decode"
  return branchesFrom C 0 (ByteVec.zero 32 :: raws.map (sha256d C))

def merkleRootFromCoinbase (coinbaseHash : Hash32) (branches : List Hash32) : Hash32 :=
  branches.foldl (merkleNode C) coinbaseHash

def reconstructCanonicalHeader80 (activation : Nat) (snapshot : CanonicalJobSnapshot) (merkleRootInternal : Hash32)
    (ntime nonce effectiveVersion : UInt32) : Bytes :=
  let merkleWire := if snapshot.height < activation then merkleRootInternal.reverse else merkleRootInternal
  le32 effectiveVersion ++ snapshot.prevHashInternal.reverse.bytes ++ merkleWire.bytes ++ le32 ntime ++
    le32 snapshot.bits ++ le32 nonce

variable {C}

theorem foldl_branchesFrom {fuel : Nat} {rest : List Hash32} (root placeholder : Hash32) (h : rest.length ≤ fuel) :
    (branchesFrom C 0 (placeholder :: rest)).foldl (merkleNode C) root = merkleReduce C fuel (root :: rest) := by
  induction fuel generalizing rest root placeholder with
  | zero =>
    obtain rfl := List.length_eq_zero_iff.mp (Nat.le_zero.mp h)
    rw [branchesFrom]
    rfl
  | succ fuel ih =>
    cases rest with
    | nil =>
      rw [branchesFrom]
      rfl
    | cons sibling rest =>
      have hlen := merkleLevel_length C rest
      rw [List.length_cons] at h
      rw [branchesFrom, if_pos (by simp), merkleReduce, if_neg (by simp)]
      exact ih (merkleNode C root sibling) (merkleNode C placeholder sibling) (by omega)

theorem buildMerkleBranches_encode (txs : List Transaction) :
    buildMerkleBranches C (txs.map fun tx => encodeHex tx.serialize) =
      .ok (branchesFrom C 0 (ByteVec.zero 32 :: txs.map fun tx => (tx.txid C).reverse)) := by
  have hraws : (txs.map fun tx => encodeHex tx.serialize).mapM (fun h => orFail (decodeHex h) "template tx decode") =
      .ok (txs.map Transaction.serialize) := by
    induction txs with
    | nil => rfl
    | cons tx txs ih =>
      rw [List.map_cons, List.mapM_cons, ih, decodeHex_encodeHex]
      rfl
  have hleaf : (txs.map Transaction.serialize).map (sha256d C) = txs.map fun tx => (tx.txid C).reverse := by
    rw [List.map_map]
    exact List.map_congr_left fun tx _ => (ByteVec.reverse_reverse _).symm
  rw [buildMerkleBranches, hraws, ← hleaf]
  rfl

theorem poolStandardHeaderActivationHeight_eq (E : NodeEnv) (override : Option Nat) :
    poolStandardHeaderActivationHeight E.network override =
      (E.withResolvedHeaders override).standardHeaderActivationHeight := by
  rw [NodeEnv.withResolvedHeaders, networkKind]
  cases E.network <;> rfl

/-- The root and the header that the pool hashes for a share are those of the node. -/
theorem pool_work_matches (E : NodeEnv) (override : Option Nat) (coinbase : Transaction) (txs : List Transaction) :
    ∃ branches, buildMerkleBranches C (txs.map fun tx => encodeHex tx.serialize) = .ok branches ∧
      (∀ b : Block, b.transactions = coinbase :: txs →
        merkleRootFromCoinbase C (sha256d C coinbase.serialize) branches = b.merkleRoot C) ∧
      ∀ (snapshot : CanonicalJobSnapshot) (root : Hash32) (ntime nonce effectiveVersion : UInt32),
        reconstructCanonicalHeader80 (poolStandardHeaderActivationHeight E.network override) snapshot root ntime nonce
            effectiveVersion =
          BlockHeader.serializeForHeight (E.withResolvedHeaders override)
            ⟨effectiveVersion, snapshot.prevHashInternal, root, ntime, snapshot.bits, nonce⟩ snapshot.height := by
  refine ⟨_, buildMerkleBranches_encode txs, fun b hb => ?_, fun snapshot root ntime nonce effectiveVersion => ?_⟩
  · have hlen : (txs.map fun tx => (tx.txid C).reverse).length ≤ (coinbase :: txs).length := by simp
    rw [merkleRootFromCoinbase, foldl_branchesFrom _ _ hlen, Block.merkleRoot, hb, List.map_cons, Transaction.txid,
      ByteVec.reverse_reverse]
  · rw [reconstructCanonicalHeader80, poolStandardHeaderActivationHeight_eq, BlockHeader.serializeForHeight]

end IriumConsensus
