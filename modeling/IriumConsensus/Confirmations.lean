import IriumConsensus.Nodes
import IriumConsensus.Reachable
import IriumConsensus.SwapClaims

namespace IriumConsensus

open ByteCodec

namespace Relay

variable (r : Relay)

/-- The header `i` links below `hash`, if all on the way there are known. -/
def ancestor : Nat → Hash32 → Option Hash32
  | 0, hash => if hash ∈ r.headers then some hash else none
  | i + 1, hash => (r.headers.lookup hash).bind fun e => ancestor i e.header.prevHash

/-- The header is the tip or an ancestor of it, and at least `count` headers lead from it to the tip. -/
def Confirms (hash : Hash32) (count : Nat) : Prop :=
  ∃ tip i, r.tip = some tip ∧ r.ancestor i tip = some hash ∧ count ≤ i + 1

structure LinkedAbove (height : Nat) : Prop where
  tip : ∃ tip ∈ r.tip, tip ∈ r.headers ∧ r.heights.lookup tip = some r.tipHeight
  le_tip : height ≤ r.tipHeight
  parent : ∀ p ∈ r.headers.entries, ∀ n ∈ r.heights.lookup p.1, height < n →
    p.2.header.prevHash ∈ r.headers ∧ r.heights.lookup p.2.header.prevHash = some (n - 1)

/-- No other header is known at the height of this one, and those above it hang together. -/
def SoleAt (hash : Hash32) : Prop :=
  ∃ n ∈ r.heights.lookup hash, r.LinkedAbove n ∧ ∀ p ∈ r.heights.entries, p.2 = n → p.1 = hash

instance (height : Nat) : Decidable (r.LinkedAbove height) :=
  decidable_of_iff ((∃ tip ∈ r.tip, tip ∈ r.headers ∧ r.heights.lookup tip = some r.tipHeight) ∧
      height ≤ r.tipHeight ∧ ∀ p ∈ r.headers.entries, ∀ n ∈ r.heights.lookup p.1, height < n →
        p.2.header.prevHash ∈ r.headers ∧ r.heights.lookup p.2.header.prevHash = some (n - 1))
    ⟨fun h => ⟨h.1, h.2.1, h.2.2⟩, fun h => ⟨h.1, h.2, h.3⟩⟩

instance (hash : Hash32) : Decidable (r.SoleAt hash) := inferInstanceAs (Decidable (∃ n ∈ _, _))

variable {r} {hash : Hash32}

theorem ancestor_eq_none {i j : Nat} (h : r.ancestor i hash = none) (hij : i ≤ j) :
    r.ancestor j hash = none := by
  induction i generalizing j hash with
  | zero =>
    rw [ancestor, ite_eq_right_iff] at h
    have hnot : hash ∉ r.headers := fun hm => by simpa using h hm
    cases j with
    | zero => rw [ancestor, if_neg hnot]
    | succ j => rw [ancestor, Finmap.lookup_eq_none.mpr hnot, Option.bind_none]
  | succ i ih =>
    obtain ⟨j, rfl⟩ : ∃ m, j = m + 1 := ⟨j - 1, by omega⟩
    rw [ancestor] at h ⊢
    cases hl : r.headers.lookup hash with
    | none => rfl
    | some e =>
      rw [hl, Option.bind_some] at h
      exact ih h (by omega)

theorem LinkedAbove.ancestor_at {height i : Nat} (hl : r.LinkedAbove height) (hm : hash ∈ r.headers)
    (hh : r.heights.lookup hash = some (height + i)) :
    ∃ found, r.ancestor i hash = some found ∧ r.heights.lookup found = some height := by
  induction i generalizing hash with
  | zero => exact ⟨hash, by rw [ancestor, if_pos hm], hh⟩
  | succ i ih =>
    obtain ⟨e, he⟩ := Finmap.mem_iff.mp hm
    obtain ⟨hpm, hph⟩ := hl.parent ⟨hash, e⟩ (Finmap.lookup_eq_some_iff.mp he) _ hh (by omega)
    rw [show height + (i + 1) - 1 = height + i by omega] at hph
    obtain ⟨found, hfound, hat⟩ := ih hpm hph
    exact ⟨found, by rw [ancestor, he, Option.bind_some, hfound], hat⟩

theorem SoleAt.confirms {n count : Nat} (hs : r.SoleAt hash) (hn : r.heights.lookup hash = some n)
    (hc : count ≤ r.tipHeight + 1 - n) : r.Confirms hash count := by
  obtain ⟨m, hm, hl, hsole⟩ := hs
  obtain rfl : n = m := Option.some.inj (hn.symm.trans hm)
  obtain ⟨tip, htip, hmem, hheight⟩ := hl.tip
  have hle := hl.le_tip
  rw [show r.tipHeight = n + (r.tipHeight - n) by omega] at hheight
  obtain ⟨found, hfound, hat⟩ := hl.ancestor_at hmem hheight
  obtain rfl : found = hash := hsole ⟨found, n⟩ (Finmap.lookup_eq_some_iff.mp hat) rfl
  exact ⟨tip, _, htip, hfound, by omega⟩

end Relay

variable {C : Crypto} {E : NodeEnv} {P : ChainParams} {L : Ledger} {height : Nat} {tx : Transaction}
  {acc acc' : TxAcc} {txin : TxInput} {k : SwapClaim}

theorem accepted_claim_counts (h : validateTransactionInternal C E P L tx height acc = .ok acc')
    (hmem : txin ∈ tx.inputs) (hk : swapClaim L.utxos txin = some k) :
    ∃ n, (L.relay k.chain).heights.lookup k.blockHash = some n ∧
      k.swap.confirmationsRequired.toNat ≤ (L.relay k.chain).tipHeight + 1 - n := by
  obtain ⟨entry, j, c, c', hentry, hv⟩ := validateTransactionInternal_verified h hmem
  rcases verifyTransactionSignature_claim hentry hv with ⟨hnone, -⟩ | ⟨k', op, hk', ha, -⟩
  · simp [hk] at hnone
  · cases Option.some.inj (hk.symm.trans hk')
    obtain ⟨_, n, _, _, _, _, hn, -, hconf, -⟩ := provenPayment_passed ha.proven
    exact ⟨n, hn, hconf⟩

/-- A claim is confirmed as its swap requires when its header is the only one known at its height. -/
theorem claim_confirmed (h : validateTransactionInternal C E P L tx height acc = .ok acc')
    (hmem : txin ∈ tx.inputs) (hk : swapClaim L.utxos txin = some k)
    (hsole : (L.relay k.chain).SoleAt k.blockHash) :
    (L.relay k.chain).Confirms k.blockHash k.swap.confirmationsRequired.toNat := by
  obtain ⟨n, hn, hc⟩ := accepted_claim_counts h hmem hk
  exact hsole.confirms hn hc

namespace ChainState

def swapNode : NodeEnv :=
  { devnetNode with
    activationHeight := fun v => match v with
      | .btcSpvRelay | .coinbaseHeaderBatch | .htlcBtcSwapV1 => some 1
      | _ => none
    number := fun v => if v = .coinbaseMaturity then some 1 else none }

def regtestAnchor : Anchor where
  hash := leVec 32 0x0f9188f13cb7b2c71f2a335e3a4fc328bf5beb436012afca590b1a11466e2206
  height := 0
  bits := 0x207fffff
  time := 1296688602

def swapParams : ChainParams := nodeParams swapNode (some regtestAnchor) none lockedGenesis

def foreignTx (bindings : List Nat) : Bytes :=
  [1, 0, 0, 0, 1] ++ List.replicate 36 0 ++ [0, 0xff, 0xff, 0xff, 0xff, UInt8.ofNat (1 + bindings.length)] ++
    le64 5000 ++ [25] ++ p2pkhScript keyOnePkh ++
    bindings.flatMap (fun n => le64 0 ++ [16, 0x6a, 14] ++ btcOpReturnBindingMagic ++ (beVec 8 n).bytes) ++
    [0, 0, 0, 0]

def foreignHeader (prevHash merkleRoot : Hash32) (time nonce : UInt32) : ForeignHeader :=
  ⟨1, prevHash, merkleRoot, time, 0x207fffff, nonce⟩

def batchOutput (headers : List ForeignHeader) : TxOutput :=
  ⟨0, [btcHeaderBatchTag, 0x01, UInt8.ofNat headers.length, 0x00] ++ headers.flatMap ForeignHeader.serialize⟩

def boundSwap (binding : Nat) : HtlcSwapOutput where
  confirmationsRequired := 1
  recipientPkh := keyOnePkh
  refundPkh := ByteVec.zero 20
  foreignRecipientPkh := keyOnePkh
  foreignAmountSats := 5000
  timeoutHeight := 1000
  fundingBinding := beVec 8 binding

def swapOutput (binding : Nat) : TxOutput := ⟨1000, encodeHtlcBtcSwapV1Script (boundSwap binding)⟩

def claimInput (prevTxid : Hash32) (prevIndex : UInt32) (der : Bytes) (blockHash : Hash32) (txRaw : Bytes) : TxInput where
  prevTxid
  prevIndex
  scriptSig := [1, UInt8.ofNat (der.length + 1)] ++ der ++ [1, 33] ++ keyOne.bytes ++ blockHash.bytes ++
    [0, 0, 0, 0, 0, 0] ++ [UInt8.ofNat txRaw.length] ++ txRaw
  sequence := 0xffffffff

/-- It is below the anchor and holds the transaction that binds one swap. -/
def paymentHeader : ForeignHeader :=
  foreignHeader regtestAnchor.hash (beVec 32 0x4f605d8c2c13ba9e7ba7723afe01a61132ef47ff190c5c0d6a0f5a391c93798b)
    1296688700 0

def paymentHeaderHash : Hash32 := beVec 32 0xa1d6f0043ab1ffb9fed56298adc3c0f85c0083856149b3d037b7bfbe4c3ccf4f

def fundingBlock : Block :=
  devnetBlock lockedGenesisHash (beVec 32 0x10bd60fe74c956afe9ed623d51b679321ba8ce469eb20514908027c490a35c22)
    1767583931 1 [coinbaseTx [] [batchOutput [paymentHeader], swapOutput 1]]

def claimSignature : SignedDigest where
  digest := beVec 32 0x01b8353b3b85cf5197cf092e62807b0fa213ef06d415df63f9aca7423de9f013
  signature := beVec 64 0x0011253b26dd07648e9e1be4df12b2955236e35df622192fa3d6a0d523fe7d8534574dce57ebb910c0d4649b835a16fb53a5893a34b9d85dc6cf3af5e717cdea
  der := (beVec 69 0x3043021f11253b26dd07648e9e1be4df12b2955236e35df622192fa3d6a0d523fe7d85022034574dce57ebb910c0d4649b835a16fb53a5893a34b9d85dc6cf3af5e717cdea).bytes

def swapClaimInput : TxInput :=
  claimInput (beVec 32 0x225ca390c42780901405b29e46cea81b3279b6513d62ede9af56c974fe60bd10) 1 claimSignature.der
    paymentHeaderHash (foreignTx [1])

def swapClaimTx : Transaction where
  version := 1
  inputs := [swapClaimInput]
  outputs := [⟨1000, p2pkhScript (ByteVec.zero 20)⟩]
  locktime := 0

def ClaimPasses (s : ChainState) : Prop :=
  validateTransactionInternal (signedCrypto claimSignature) swapNode swapParams s.toLedger swapClaimTx s.height
    ⟨[], 0, ⟨[], []⟩⟩ = .ok ⟨[swapClaimInput.outpoint], 0, ⟨[(paymentHeader.merkleRoot, 1)], []⟩⟩

instance (s : ChainState) : Decidable (ClaimPasses s) := inferInstanceAs (Decidable (_ = _))

theorem first_header_confirms :
    ∃ s, Reachable (signedCrypto claimSignature) swapNode s ∧ ClaimPasses s ∧
      s.btc.relay.Confirms paymentHeaderHash 1 := by
  obtain ⟨s, hs, hpass, hk, hsole⟩ := exists_reachable_of_runOf (C := signedCrypto claimSignature) (E := swapNode)
    quietAmbient swapParams [fundingBlock]
    (fun s => ClaimPasses s ∧
      swapClaim s.utxos swapClaimInput =
        some ⟨.btc, boundSwap 1, paymentHeaderHash, [], 0, foreignTx [1]⟩ ∧
      s.btc.relay.SoleAt paymentHeaderHash) (by decide +kernel)
  exact ⟨s, hs, hpass, claim_confirmed hpass (List.mem_singleton_self _) hk hsole⟩

def rivalHeaders : List ForeignHeader :=
  [foreignHeader regtestAnchor.hash (ByteVec.zero 32) 1296688701 0,
    foreignHeader (beVec 32 0xbbc9d061f5a5c70c96264525ab87f5c50e855dd86b5ece85d08de2cea8ce8443) (ByteVec.zero 32)
      1296688702 0]

def rivalBlock : Block :=
  devnetBlock (beVec 32 0x24087ea29531d7002cad6a79b5e9e7db8f480db8f840135a0688d9a3c1accef1)
    (beVec 32 0xeb71c1210610275c10726220f1a280dbc68ec5addaeeecf0f62c68f0d5e3c410) 1767583932 2
    [coinbaseTx [] [batchOutput rivalHeaders, ⟨5000000000, p2pkhScript (ByteVec.zero 20)⟩]]

/-- A header on the losing branch supports a claim. -/
theorem orphaned_header_supports_claim :
    ∃ s, Reachable (signedCrypto claimSignature) swapNode s ∧ ClaimPasses s ∧
      swapClaim s.utxos swapClaimInput = some ⟨.btc, boundSwap 1, paymentHeaderHash, [], 0, foreignTx [1]⟩ ∧
      ¬ s.btc.relay.Confirms paymentHeaderHash 1 := by
  obtain ⟨s, hs, hpass, hk, h0, h1, h2⟩ := exists_reachable_of_runOf (C := signedCrypto claimSignature) (E := swapNode)
    quietAmbient swapParams [rivalBlock, fundingBlock]
    (fun s => ClaimPasses s ∧
      swapClaim s.utxos swapClaimInput =
        some ⟨.btc, boundSwap 1, paymentHeaderHash, [], 0, foreignTx [1]⟩ ∧
      s.btc.relay.tip.bind (s.btc.relay.ancestor 0) ≠ some paymentHeaderHash ∧
      s.btc.relay.tip.bind (s.btc.relay.ancestor 1) ≠ some paymentHeaderHash ∧
      s.btc.relay.tip.bind (s.btc.relay.ancestor 2) = none) (by decide +kernel)
  refine ⟨s, hs, hpass, hk, ?_⟩
  rintro ⟨tip, i, htip, hi, -⟩
  simp only [htip, Option.bind_some] at h0 h1 h2
  match i with
  | 0 => exact h0 hi
  | 1 => exact h1 hi
  | i + 2 =>
    rw [Relay.ancestor_eq_none h2 (Nat.le_add_left 2 i)] at hi
    simp at hi

end ChainState

end IriumConsensus
