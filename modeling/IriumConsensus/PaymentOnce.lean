import IriumConsensus.Confirmations
import IriumConsensus.Replay

namespace IriumConsensus

open ByteCodec Checks FinMaps UndoStack

def chainClaims (C : Crypto) : List Block → List SwapClaim
  | [] => []
  | b :: below => chainClaims C below ++ swapClaims (replay C below) b.inputs

structure ClaimsRecorded (C : Crypto) (chain : List Block) (claimed : ForeignChain → Finset ForeignOutpoint) :
    Prop where
  known : ∀ k ∈ chainClaims C chain, ∃ op, k.outpoint C = some op
  nodup : ∀ on, (outpointsOn C on (chainClaims C chain)).Nodup
  recorded : ∀ on, ∀ op ∈ outpointsOn C on (chainClaims C chain), op ∈ claimed on

def BlockUndo.unclaim (undo : BlockUndo) (claimed : ForeignChain → Finset ForeignOutpoint) :
    ForeignChain → Finset ForeignOutpoint :=
  fun on => claimed on \ (undo.claimedAdded.get on).toFinset

def Records (C : Crypto) (E : NodeEnv) (s : ChainState) : Prop :=
  Rewinds (blockKey C E) (fun _ _ _ => True) BlockUndo.unclaim (ClaimsRecorded C) s.chain.reverse s.undoLogs
    s.claimed

variable {C : Crypto} {E : NodeEnv} {A : Ambient} {Offered : Nat → Block → Prop} {utxos : FinMap OutPoint UtxoEntry}
  {k : SwapClaim} {b : Block}

theorem swapClaims_of_submap {utxos' : FinMap OutPoint UtxoEntry} {inputs : List TxInput} (hsub : Submap utxos utxos')
    (hknown : ∀ txin ∈ inputs, ∃ entry, utxos.lookup txin.outpoint = some entry) :
    swapClaims utxos inputs = swapClaims utxos' inputs := by
  refine List.filterMap_congr fun txin hmem => ?_
  obtain ⟨entry, hentry⟩ := hknown txin hmem
  simp only [swapClaim, hentry, hsub _ _ hentry]

section

variable {P : ChainParams} {below : List Block} {b : Block} {reward : Nat} {enforce : Bool} {m : Option Nat}
  {L L' : Ledger} {undo : BlockUndo}

theorem BlockApplied.claimed_eq (h : BlockApplied C E P below.length b reward enforce m L undo L') :
    L'.claimed = fun on => L.claimed on ∪ (undo.claimedAdded.get on).toFinset := by
  cases h with
  | mk _ _ _ hm _ _ _ _ =>
    have hc := hm.claimed_eq
    funext on
    have hon := congrFun hc on
    cases on <;> simp only [Ledger.claimed] at hon <;> simp [Ledger.commit, Ledger.claimed, Consumed.get, hon]

theorem BlockApplied.inputs_known (h : BlockApplied C E P below.length b reward enforce m L undo L')
    {txin : TxInput} (hmem : txin ∈ b.inputs) : ∃ entry, L.utxos.lookup txin.outpoint = some entry := by
  cases h with
  | mk htxs _ hacc _ _ _ _ _ =>
    obtain ⟨tx, htx, hin⟩ := List.mem_flatMap.mp hmem
    rw [htxs, List.tail_cons] at htx
    have hop : txin.outpoint ∈ inputOutpoints _ := List.mem_flatMap.mpr ⟨tx, htx, List.mem_map_of_mem hin⟩
    obtain ⟨entry, -, hs⟩ := forall₂_left_mem hacc.spendable hop
    exact ⟨entry, hs.known⟩

theorem ClaimsRecorded.push (h : ClaimsRecorded C below L.claimed)
    (ha : BlockApplied C E P below.length b reward enforce m L undo L')
    (hk : ClaimsAdded C L.claimed (swapClaims L.utxos b.inputs) ⟨[], []⟩ undo.claimedAdded)
    (hsub : Submap L.utxos (replay C below)) :
    ClaimsRecorded C (b :: below) L'.claimed ∧ undo.unclaim L'.claimed = L.claimed := by
  rw [swapClaims_of_submap hsub fun txin hmem => ha.inputs_known hmem] at hk
  have hadded : ∀ on, undo.claimedAdded.get on = outpointsOn C on (swapClaims (replay C below) b.inputs) := by
    intro on
    rw [hk.added on]
    cases on <;> rfl
  have hnew : ∀ on, (undo.claimedAdded.get on).Nodup := fun on => hk.nodup on (by cases on <;> exact List.nodup_nil)
  rw [ha.claimed_eq]
  refine ⟨⟨?_, fun on => ?_, fun on op hop => ?_⟩, ?_⟩
  · intro k hmem
    rcases List.mem_append.mp hmem with hmem | hmem
    · exact h.known k hmem
    · exact hk.known k hmem
  · rw [chainClaims, ClaimsAdded.outpointsOn_append, List.nodup_append]
    refine ⟨h.nodup on, hadded on ▸ hnew on, ?_⟩
    rintro op hop op' hop' rfl
    exact hk.unclaimed on op hop' (h.recorded on op hop)
  · rw [chainClaims, ClaimsAdded.outpointsOn_append] at hop
    rcases List.mem_append.mp hop with hop | hop
    · exact Finset.mem_union_left _ (h.recorded on op hop)
    · exact Finset.mem_union_right _ (List.mem_toFinset.mpr (hadded on ▸ hop))
  · funext on
    refine Finset.union_sdiff_cancel_right (Finset.disjoint_left.mpr fun op hop hop' => ?_)
    rw [hadded on] at hop'
    exact hk.unclaimed on op (List.mem_toFinset.mp hop') hop

end

namespace ChainState

variable {s s' : ChainState} {undo : BlockUndo}

theorem new_records {params : ChainParams} (h : new C E A params = some s) : Records C E s := by
  obtain ⟨undo, L, hL, rfl⟩ := new_eq_some h
  have ha := (validateAndApplyTransactions_triple _ _ _ _).ok rfl hL
  have hk := (validateAndApplyTransactions_claims _ _ _ _).ok rfl hL
  have hblank : ClaimsRecorded C [] (blank E params).claimed :=
    ⟨by simp [chainClaims], by simp [chainClaims, outpointsOn], by simp [chainClaims, outpointsOn]⟩
  refine ⟨(hblank.push ha hk (.refl _)).1, fun u hu => ?_⟩
  -- no undo data is kept for the genesis block
  simp [indexGenesis, acceptGenesis, setLedger, blank] at hu

theorem acceptBlock_records {b : Block} {L : Ledger} (hw : WellFormed C E s) (hr : Replays C E Offered s)
    (hs : Records C E s) (hL : applyTransactions C E s b s.toLedger = (.ok undo, L)) :
    Records C E (acceptBlock C E (s.setLedger L) b undo) := by
  obtain ⟨poawx, index, finalized, heq, -⟩ := acceptBlock_eq (C := C) (E := E) (s.setLedger L) b undo
  have hlen := hw.reverse_chain.2
  have ha := hw.applied_reverse (applyTransactions_ok hL)
  have hk := (validateAndApplyTransactions_claims _ _ _ _).ok rfl hL
  obtain ⟨hrec, hback⟩ := hs.inv.push ha hk hr.utxos
  have hpush := hs.push trivial hback hrec
  rw [blockKey, hlen] at hpush
  rw [heq]
  simp only [Records, pushBlock, setLedger, blockHash, List.reverse_append, List.reverse_singleton,
    List.singleton_append]
  exact hpush

theorem popBlock_records {tip : Block} (hw : WellFormed C E s) (hs : Records C E s)
    (ht : tipUndo C E s = .ok (tip, undo)) : Records C E (popBlock C E s tip undo) := by
  obtain ⟨hchain, hkey, hundo⟩ := tipUndo_reverse hw ht
  have hclaimed : (popBlock C E s tip undo).claimed = undo.unclaim s.claimed := by
    funext on
    cases on <;> rfl
  unfold Records at hs ⊢
  rw [hchain] at hs
  have hpop := (hs.pop hundo).2
  rw [hkey] at hpop
  rw [hclaimed]
  exact hpop

theorem Step.records (hw : WellFormed C E s) (hr : Replays C E Offered s) (hs : Records C E s)
    (h : Step C E Offered s s') : Records C E s' := by
  cases h with
  | connect A b hb =>
    rcases hc : connectBlock C E A b s with ⟨e | u, s'⟩
    · rcases connectBlock_error hc with ⟨-, rfl⟩ | ⟨-, L, rfl, hL | ⟨undo, hL, hover⟩⟩
      · exact hs
      · -- a refused block has moved the relays at most
        obtain ⟨updates, hm⟩ := (validateAndApplyTransactions_triple b _ _ _).error rfl hL
        have hclaimed : L.claimed = s.claimed := hm.claimed_eq
        unfold Records at hs ⊢
        rw [← hclaimed] at hs
        exact hs
      · have hi := (applyTransactions_ok hL).issued_le hw.issued
        have hlt : maxMoney < u64Max := by decide
        omega
    · obtain ⟨-, undo, L, hL, -, rfl⟩ := connectBlock_eq_ok.mp hc
      exact acceptBlock_records hw hr hs hL
  | disconnect =>
    rcases hc : disconnectTipBlock C E s with ⟨e | tip, s'⟩
    · rw [disconnectTipBlock_error hc]
      exact hs
    · obtain ⟨undo, ht, rfl⟩ := disconnectTipBlock_eq_ok.mp hc
      exact popBlock_records hw hs ht
  | reindex index anchors orphaned => exact hs

theorem ReachableBy.records (hs : ReachableBy C E Offered s) : Records C E s := by
  refine (hs.induct (P := fun s => WellFormed C E s ∧ Replays C E Offered s ∧ Records C E s) ?_ ?_).2.2
  · intro A params s hg h
    exact ⟨new_wellFormed h, new_replays hg h, new_records h⟩
  · rintro s s' ⟨hw, hr, hk⟩ hstep
    have he := hstep.effect hw.issued
    exact ⟨he.wellFormed hw, he.replays hw hr, hstep.records hw hr hk⟩

end ChainState

/-- An `OP_RETURN` output that binds some swap. -/
def ForeignOutput.isBinding (o : ForeignOutput) : Bool :=
  match o.script with
  | .opReturn data => data.take 6 = btcOpReturnBindingMagic ∨ data.take 6 = ltcOpReturnBindingMagic
  | _ => false

def Block.foreignTxs (b : Block) : List Bytes :=
  b.inputs.filterMap fun txin => match parseHtlcSwapWitness txin.scriptSig with
    | some (.claim _ _ _ _ _ txRaw) => some txRaw
    | _ => none

def BindsOnce (C : Crypto) (outputsOf : Hash32 → List ForeignOutput) (b : Block) : Prop :=
  ∀ txRaw ∈ b.foreignTxs, ∀ txid ∈ btcTxid C txRaw, ∀ outs ∈ parseBtcTxOutputs txRaw,
    outs = outputsOf txid ∧ (outs.filter ForeignOutput.isBinding).length ≤ 1

theorem isBinding_of_bindsSwap {o : ForeignOutput} (h : bindsSwap (k.rules true) k.swap o) :
    o.isBinding := by
  unfold bindsSwap at h
  unfold ForeignOutput.isBinding
  cases hs : o.script with
  | opReturn data =>
    rw [hs] at h
    have hdata := of_decide_eq_true h
    subst hdata
    cases hc : k.chain <;> simp [SwapClaim.rules, hc, btcSwapRules, ltcSwapRules, btcOpReturnBindingMagic,
      ltcOpReturnBindingMagic]
  | _ =>
    rw [hs] at h
    exact absurd h Bool.false_ne_true

theorem txRaw_mem_foreignTxs (h : k ∈ swapClaims utxos b.inputs) : k.txRaw ∈ b.foreignTxs := by
  obtain ⟨txin, hmem, hk⟩ := List.mem_filterMap.mp h
  refine List.mem_filterMap.mpr ⟨txin, hmem, ?_⟩
  simp only [swapClaim, Option.bind_eq_bind, Option.bind_eq_some_iff] at hk
  obtain ⟨entry, -, spent, -, w, hw, hk⟩ := hk
  cases w with
  | claim sig pubkey blockHash branch index txRaw =>
    simp only [Option.pure_def, Option.some.injEq] at hk
    rw [hw, ← hk]
  | refund sig pubkey => simp at hk

theorem Mined.claim_offered {P : Block → Prop} {chain : List Block} {issued : Nat}
    (h : Mined C E (fun _ => P) chain issued) (hk : k ∈ chainClaims C chain) :
    ∃ b, P b ∧ k.txRaw ∈ b.foreignTxs := by
  induction h with
  | nil => simp [chainClaims] at hk
  | cons hbelow hb hsub ha ih =>
    rcases List.mem_append.mp hk with hk | hk
    · exact ih hk
    · exact ⟨_, hb, txRaw_mem_foreignTxs hk⟩

theorem outpoint_pairwise {ks : List SwapClaim} (hknown : ∀ k ∈ ks, ∃ op, k.outpoint C = some op)
    (hn : ∀ on, (outpointsOn C on ks).Nodup) :
    ks.Pairwise fun k k' => k.chain = k'.chain → k.outpoint C ≠ k'.outpoint C := by
  induction ks with
  | nil => exact .nil
  | cons k ks ih =>
    refine .cons (fun k' hmem hchain heq => ?_) (ih (fun k' hk => hknown k' (List.mem_cons_of_mem k hk)) fun on => ?_)
    · obtain ⟨op, hop⟩ := hknown k List.mem_cons_self
      have hnk := hn k.chain
      simp only [outpointsOn, List.filter_cons, decide_true, ↓reduceIte, List.filterMap_cons, hop,
        List.nodup_cons] at hnk
      refine hnk.1 (List.mem_filterMap.mpr ⟨k', ?_, heq ▸ hop⟩)
      simp [hmem, hchain]
    · exact (hn on).sublist (((List.sublist_cons_self k ks).filter _).filterMap _)

theorem outpoint_eq_of_paidBy {outputsOf : Hash32 → List ForeignOutput} {b' : Block} {k' : SwapClaim}
    {op : ForeignOutpoint} (hb : BindsOnce C outputsOf b) (hb' : BindsOnce C outputsOf b')
    (hk : k.txRaw ∈ b.foreignTxs) (hk' : k'.txRaw ∈ b'.foreignTxs) (hp : k.PaidBy C op) (hp' : k'.PaidBy C op)
    (ho : ∃ o, k.outpoint C = some o) (ho' : ∃ o, k'.outpoint C = some o) : k.outpoint C = k'.outpoint C := by
  obtain ⟨outs, -, htx, houts, -⟩ := hp
  obtain ⟨outs', -, htx', houts', -⟩ := hp'
  obtain ⟨heq, hone⟩ := hb _ hk _ htx _ houts
  obtain ⟨heq', -⟩ := hb' _ hk' _ htx' _ houts'
  have hsame : outs' = outs := heq'.trans heq.symm
  subst hsame
  obtain ⟨_, ho⟩ := ho
  obtain ⟨_, ho'⟩ := ho'
  simp only [SwapClaim.outpoint, htx, houts, htx', houts', Option.bind_eq_bind, Option.bind_some,
    Option.bind_eq_some_iff, Option.pure_def, Option.some.injEq] at ho ho' ⊢
  obtain ⟨o, hfind, -⟩ := ho
  obtain ⟨o', hfind', -⟩ := ho'
  have hmem : ∀ {k : SwapClaim} {o : ForeignOutput}, outs'.find? (bindsSwap (k.rules true) k.swap) = some o →
      o ∈ outs'.filter ForeignOutput.isBinding := fun hf =>
    List.mem_filter.mpr ⟨List.mem_of_find?_eq_some hf, isBinding_of_bindsSwap (List.find?_some hf)⟩
  have hoo : o = o' := by
    have h := hmem hfind
    have h' := hmem hfind'
    obtain ⟨x, hx⟩ := List.length_eq_one_iff.mp (le_antisymm hone (List.length_pos_of_mem h))
    rw [hx, List.mem_singleton] at h h'
    rw [h, h']
  rw [hfind, hfind', hoo]

namespace ChainState

/-- In every run whose claims show foreign transactions with one binding each, a payment output pays for
one claim of the chain at most. -/
theorem payment_justifies_once {outputsOf : Hash32 → List ForeignOutput} {s : ChainState}
    (hs : ReachableBy C E (fun _ => BindsOnce C outputsOf) s) :
    (chainClaims C s.chain.reverse).Pairwise fun k k' =>
      k.chain = k'.chain → ∀ op, ¬ (k.PaidBy C op ∧ k'.PaidBy C op) := by
  have hrec := hs.records.inv
  have hmined := hs.replays.rewinds.inv
  refine (outpoint_pairwise hrec.known hrec.nodup).imp_of_mem ?_
  rintro k k' hk hk' hne hchain op ⟨hp, hp'⟩
  obtain ⟨b, hb, hraw⟩ := hmined.claim_offered hk
  obtain ⟨b', hb', hraw'⟩ := hmined.claim_offered hk'
  exact hne hchain (outpoint_eq_of_paidBy hb hb' hraw hraw' hp hp' (hrec.known k hk) (hrec.known k' hk'))

instance (outputsOf : Hash32 → List ForeignOutput) (b : Block) : Decidable (BindsOnce C outputsOf b) :=
  inferInstanceAs (Decidable (∀ txRaw ∈ _, ∀ txid ∈ _, ∀ outs ∈ _, _))

def laterPaymentHeader : ForeignHeader :=
  foreignHeader paymentHeaderHash (beVec 32 0xfbb51fd7e15bb73197979ce4c50487de8e1bd4d0dcfae0b399eb346abf25ad50)
    1296688701 0

/-- The first swap is claimed, and the second one is funded with the header of its payment. -/
def claimBlock : Block :=
  devnetBlock (beVec 32 0x24087ea29531d7002cad6a79b5e9e7db8f480db8f840135a0688d9a3c1accef1)
    (beVec 32 0xbe8e8c16ebaf54ed9ed9df1cb3502478f602543f63e165c35b40b4eb645308c5) 1767583932 0
    [coinbaseTx [] [batchOutput [laterPaymentHeader], swapOutput 2], swapClaimTx]

def laterClaimSignature : SignedDigest where
  digest := beVec 32 0xc0c21c4490f616f9a69db04c99b6b25101d1f0c5a4429e3ffb2fd73a53f7cb82
  signature := beVec 64 0xcbd76d9c08a01e54f2205e8678fd12adbe45e175e9c84e17bafa09ebfa07f30717a398473ac21648ae924203a1d3c0a515dd97d646e7a1157c8186d545b0bb39
  der := (beVec 71 0x3045022100cbd76d9c08a01e54f2205e8678fd12adbe45e175e9c84e17bafa09ebfa07f307022017a398473ac21648ae924203a1d3c0a515dd97d646e7a1157c8186d545b0bb39).bytes

def laterClaimBlock : Block :=
  devnetBlock (beVec 32 0x465ce8e2a223439a4b0dec2c65de810105a3c479c6a0eb76a4461f3460136422)
    (beVec 32 0x80e4192b9f7faf8b4b667eb54c85429f38907390580ef0519f1b516c4b3cfc77) 1767583933 0
    [coinbaseTx [] [⟨5000000000, p2pkhScript (ByteVec.zero 20)⟩],
      ⟨1, [claimInput (beVec 32 0x751d4f6214a78e21759d168dd453952f477ae4d144ab8de699b41ab3f7dc52f8) 1 laterClaimSignature.der
        (beVec 32 0x74de8eaef7e5d6cd763c29b6a1dcced78514f06d157e9c766762e502c9a0af2a) (foreignTx [2])],
        [⟨1000, p2pkhScript (ByteVec.zero 20)⟩], 0⟩]

def twoClaimsCrypto : Crypto := signaturesCrypto [claimSignature, laterClaimSignature]

def paymentOutputs (txid : Hash32) : List ForeignOutput :=
  (parseBtcTxOutputs (foreignTx [if txid = paymentHeader.merkleRoot then 1 else 2])).getD []

theorem two_claims_paid_once :
    ∃ s, ReachableBy twoClaimsCrypto swapNode (fun _ => BindsOnce twoClaimsCrypto paymentOutputs) s ∧
      (chainClaims twoClaimsCrypto s.chain.reverse).map (fun k => (k.chain, k.swap)) =
        [(.btc, boundSwap 1), (.btc, boundSwap 2)] ∧
      (chainClaims twoClaimsCrypto s.chain.reverse).Pairwise fun k k' =>
        k.chain = k'.chain → ∀ op, ¬ (k.PaidBy twoClaimsCrypto op ∧ k'.PaidBy twoClaimsCrypto op) := by
  obtain ⟨s, hs, htwo⟩ :=
    exists_of_any (runOf twoClaimsCrypto swapNode quietAmbient swapParams [laterClaimBlock, claimBlock, fundingBlock])
    (fun s => (chainClaims twoClaimsCrypto s.chain.reverse).map (fun k => (k.chain, k.swap)) =
      [(.btc, boundSwap 1), (.btc, boundSwap 2)]) (by decide +kernel)
  have hoff : ∀ b ∈ swapParams.genesisBlock :: [laterClaimBlock, claimBlock, fundingBlock],
      BindsOnce twoClaimsCrypto paymentOutputs b := by
    decide +kernel
  have hreach := runOf_reachableBy (fun _ => hoff) hs
  exact ⟨s, hreach, htwo, payment_justifies_once hreach⟩

def doublePaymentHeader : ForeignHeader :=
  foreignHeader regtestAnchor.hash (beVec 32 0xf1bfe97a28e1751fe05e15e7bf4fa815cc19069a7c7006751b326b5616db8d58)
    1296688700 1

def doubleFundingBlock : Block :=
  devnetBlock lockedGenesisHash (beVec 32 0x01b4c810e2b893c8f37bb12308b5f5acff9245072cb8f783444f688638ae04b3)
    1767583931 0 [coinbaseTx [] [batchOutput [doublePaymentHeader], swapOutput 1, swapOutput 2]]

def firstClaimSignature : SignedDigest where
  digest := beVec 32 0x6ad78cbddff65de9f837f76aec672c0f518e04c3817b1e1aa88cfd5cf560c63f
  signature := beVec 64 0x0083c143ab95c553b6c69c3fae2704e65e6b9a7844aa7d822dc5729f743b2e6b23e0153a4850ac9e58fac21643c13a83914ea3e32f4f17ecddd2857c2a6c8eab
  der := (beVec 70 0x304402200083c143ab95c553b6c69c3fae2704e65e6b9a7844aa7d822dc5729f743b2e6b022023e0153a4850ac9e58fac21643c13a83914ea3e32f4f17ecddd2857c2a6c8eab).bytes

def secondClaimSignature : SignedDigest where
  digest := beVec 32 0x806bf1268a3e3ac2bc254bd7768a85975c56fd008e1b7493789049f4ec5850c1
  signature := beVec 64 0x52fad4448e07cb8a56c267a5f43e14652226d724bd26d51a3ac15cbf5fac941558cae2ebdd87d9bd49b15efd1be9bfe617195d0681fbbe1122d79eb1afa3b612
  der := (beVec 70 0x3044022052fad4448e07cb8a56c267a5f43e14652226d724bd26d51a3ac15cbf5fac9415022058cae2ebdd87d9bd49b15efd1be9bfe617195d0681fbbe1122d79eb1afa3b612).bytes

def doubleClaimCrypto : Crypto := signaturesCrypto [firstClaimSignature, secondClaimSignature]

def doubleClaimInput (index : UInt32) (signature : SignedDigest) : TxInput :=
  claimInput (beVec 32 0xb304ae3886684f4483f7b82c074592ffacf5b50823b17bf3c893b8e210c8b401) index signature.der
    (beVec 32 0xadac7aeb3b7d011e2ec037c753a8efe54985122f3340a076c652605af1c6fe16) (foreignTx [1, 2])

def doubleClaimBlock : Block :=
  devnetBlock (beVec 32 0x5afe7554c1aaf5ac011ea93b2be21670dcecf2f680ead50391a7fe9529e6d4a9)
    (beVec 32 0x9531c590e9aa3957bc18c255ecb5231b6deed5bc73d725ca7b997809792ea5bf) 1767583932 0
    [coinbaseTx [] [⟨5000000000, p2pkhScript (ByteVec.zero 20)⟩],
      ⟨1, [doubleClaimInput 1 firstClaimSignature, doubleClaimInput 2 secondClaimSignature],
        [⟨2000, p2pkhScript (ByteVec.zero 20)⟩], 0⟩]

def doubleClaim (binding : Nat) : SwapClaim :=
  ⟨.btc, boundSwap binding, beVec 32 0xadac7aeb3b7d011e2ec037c753a8efe54985122f3340a076c652605af1c6fe16, [], 0,
    foreignTx [1, 2]⟩

theorem doubleClaim_paidBy {binding : Nat} (hb : binding = 1 ∨ binding = 2) :
    (doubleClaim binding).PaidBy doubleClaimCrypto (doublePaymentHeader.merkleRoot, 0) := by
  refine ⟨(parseBtcTxOutputs (foreignTx [1, 2])).getD [], ⟨5000, .p2pkh keyOnePkh, 0⟩, ?_, ?_, ?_, ?_, rfl⟩
  · show btcTxid doubleClaimCrypto (foreignTx [1, 2]) = some doublePaymentHeader.merkleRoot
    decide +kernel
  · show parseBtcTxOutputs (foreignTx [1, 2]) = some _
    decide +kernel
  · decide +kernel
  · rcases hb with rfl | rfl <;> decide

theorem payment_claims_two_swaps :
    ∃ s k k' op, Reachable doubleClaimCrypto swapNode s ∧ chainClaims doubleClaimCrypto s.chain.reverse = [k, k'] ∧
      k.chain = k'.chain ∧ k.swap ≠ k'.swap ∧ k.PaidBy doubleClaimCrypto op ∧ k'.PaidBy doubleClaimCrypto op := by
  obtain ⟨s, hs, hclaims⟩ := exists_reachable_of_runOf (C := doubleClaimCrypto) (E := swapNode) quietAmbient swapParams
    [doubleClaimBlock, doubleFundingBlock]
    (fun s => chainClaims doubleClaimCrypto s.chain.reverse = [doubleClaim 1, doubleClaim 2]) (by decide +kernel)
  exact ⟨s, _, _, _, hs, hclaims, rfl, by decide, doubleClaim_paidBy (.inl rfl), doubleClaim_paidBy (.inr rfl)⟩

end ChainState

end IriumConsensus
