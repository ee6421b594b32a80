import IriumConsensus.Nodes
import IriumConsensus.Replay

namespace IriumConsensus

open ByteCodec FinMaps

/-- A created output: the height of its block, its transaction there and its index. -/
structure OutputId where
  block : Nat
  tx : Nat
  index : Nat
  deriving DecidableEq, Repr

structure InputId where
  block : Nat
  tx : Nat
  index : Nat
  deriving DecidableEq, Repr

variable {o : OutputId} {t : Nat} {op : OutPoint} {b : Block} {tx : Transaction} {chain below : List Block}
  {entry : UtxoEntry} {txin : TxInput}

variable (C : Crypto)

def Transaction.creations (height : Nat) (tx : Transaction) (t : Nat) (coinbase : Bool) :
    List (OutPoint × OutputId × UtxoEntry) :=
  tx.outputs.mapIdx fun i out => (⟨tx.txid C, UInt32.ofNat i⟩, ⟨height, t, i⟩, ⟨out, height, coinbase⟩)

def Block.creations (b : Block) (height : Nat) : List (OutPoint × OutputId × UtxoEntry) :=
  (b.transactions.tail.mapIdx fun t tx =>
    (tx.creations C height (t + 1) false).filter fun c => c.2.2.output.batchChain.isNone).flatten ++
  b.transactions.head?.toList.flatMap fun coinbase => coinbase.creations C height 0 true

/-- The unspent outputs of a chain, newest block first, with their places. -/
def trace : List Block → FinMap OutPoint (OutputId × UtxoEntry)
  | [] => ∅
  | b :: below => insertAll (eraseAll (trace below) b.spentOutpoints) (b.creations C below.length)

def CreatedAt (chain : List Block) (o : OutputId) (op : OutPoint) (entry : UtxoEntry) : Prop :=
  ∃ b tx out, chain[o.block]? = some b ∧ b.transactions[o.tx]? = some tx ∧ tx.outputs[o.index]? = some out ∧
    op = ⟨tx.txid C, UInt32.ofNat o.index⟩ ∧ entry = ⟨out, o.block, decide (o.tx = 0)⟩

def SpendsAt (chain : List Block) (i : InputId) (txin : TxInput) : Prop :=
  0 < i.tx ∧ ∃ b tx, chain[i.block]? = some b ∧ b.transactions[i.tx]? = some tx ∧ tx.inputs[i.index]? = some txin

def Consumes (chain : List Block) (i : InputId) (o : OutputId) : Prop :=
  ∃ txin entry, SpendsAt chain i txin ∧
    (trace C (chain.take i.block).reverse).lookup txin.outpoint = some (o, entry)

variable {C : Crypto} {height j n : Nat} {txs : List Transaction}

theorem mem_transaction_creations {coinbase : Bool} (h : (op, o, entry) ∈ tx.creations C height t coinbase) :
    o.block = height ∧ o.tx = t ∧ ∃ out, tx.outputs[o.index]? = some out ∧
      op = ⟨tx.txid C, UInt32.ofNat o.index⟩ ∧ entry = ⟨out, height, coinbase⟩ := by
  obtain ⟨i, hi, he⟩ := List.mem_mapIdx.mp h
  simp only [Prod.mk.injEq] at he
  obtain ⟨rfl, rfl, rfl⟩ := he
  exact ⟨rfl, rfl, _, List.getElem?_eq_getElem hi, rfl, rfl⟩

theorem mem_creations (h : (op, o, entry) ∈ b.creations C height) :
    o.block = height ∧ ∃ tx out, b.transactions[o.tx]? = some tx ∧ tx.outputs[o.index]? = some out ∧
      op = ⟨tx.txid C, UInt32.ofNat o.index⟩ ∧ entry = ⟨out, height, decide (o.tx = 0)⟩ := by
  rcases List.mem_append.mp h with h | h
  · obtain ⟨cs, hcs, hmem⟩ := List.mem_flatten.mp h
    obtain ⟨t, ht, rfl⟩ := List.mem_mapIdx.mp hcs
    obtain ⟨hb, htx, out, hout, hop, he⟩ := mem_transaction_creations (List.mem_filter.mp hmem).1
    refine ⟨hb, b.transactions.tail[t], out, ?_, hout, hop, ?_⟩
    · rw [htx, ← List.getElem?_tail, List.getElem?_eq_getElem ht]
    · rw [he, htx]
      simp
  · obtain ⟨coinbase, hc, hmem⟩ := List.mem_flatMap.mp h
    obtain ⟨hb, htx, out, hout, hop, he⟩ := mem_transaction_creations hmem
    refine ⟨hb, coinbase, out, ?_, hout, hop, ?_⟩
    · rw [htx, ← List.head?_eq_getElem?]
      exact Option.mem_toList.mp hc
    · rw [he, htx]
      simp

theorem creations_entries (tx : Transaction) (height t : Nat) (coinbase : Bool) :
    (tx.creations C height t coinbase).map (fun c => (c.1, c.2.2)) = tx.entries C height coinbase := by
  refine List.ext_getElem? fun i => ?_
  simp only [Transaction.creations, Transaction.entries, List.getElem?_map, List.getElem?_mapIdx, Option.map_map]
  rfl

theorem creations_created (b : Block) (height : Nat) :
    (b.creations C height).map (fun c => (c.1, c.2.2)) = b.created C height := by
  have hreg : ∀ (t : Nat) (tx : Transaction), ((tx.creations C height (t + 1) false).filter
      fun c => c.2.2.output.batchChain.isNone).map (fun c => (c.1, c.2.2)) =
        (tx.entries C height false).filter fun e => e.2.output.batchChain.isNone := by
    intro t tx
    rw [← creations_entries tx height (t + 1) false, List.filter_map]
    rfl
  rw [Block.creations, Block.created, List.map_append, List.map_flatten, List.map_flatMap]
  simp only [creations_entries]
  congr 1
  rw [List.flatMap_def]
  congr 1
  refine List.ext_getElem? fun t => ?_
  simp only [List.getElem?_map, List.getElem?_mapIdx, Option.map_map, Function.comp_def, hreg]

theorem lookup_replay (chain : List Block) (op : OutPoint) :
    (replay C chain).lookup op = ((trace C chain).lookup op).map Prod.snd := by
  induction chain generalizing op with
  | nil => rfl
  | cons b below ih =>
    have herase : ∀ k, (eraseAll (replay C below) b.spentOutpoints).lookup k =
        ((eraseAll (trace C below) b.spentOutpoints).lookup k).map Prod.snd := by
      intro k
      rw [lookup_eraseAll, lookup_eraseAll, ih k]
      split <;> rfl
    have h := lookup_insertAll_map Prod.snd herase (b.creations C below.length) op
    rw [creations_created] at h
    exact h

theorem lookup_trace_cons {c : OutputId × UtxoEntry}
    (h : (trace C (b :: below)).lookup op = some c) :
    (op, c) ∈ b.creations C below.length ∨ op ∉ b.spentOutpoints ∧ (trace C below).lookup op = some c := by
  rw [trace] at h
  by_cases hc : op ∈ (b.creations C below.length).map Prod.fst
  · obtain ⟨c', hmem, hl⟩ := lookup_insertAll_of_mem (m := eraseAll (trace C below) b.spentOutpoints) hc
    rw [hl, Option.some.injEq] at h
    exact .inl (h ▸ hmem)
  · rw [lookup_insertAll_of_notMem hc, lookup_eraseAll] at h
    split at h
    next => simp at h
    next hs => exact .inr ⟨hs, h⟩

theorem trace_block_lt
    (h : (trace C chain).lookup op = some (o, entry)) : o.block < chain.length := by
  induction chain with
  | nil => simp [trace] at h
  | cons b below ih =>
    rcases lookup_trace_cons h with hmem | ⟨-, h⟩
    · have hb := (mem_creations hmem).1
      rw [List.length_cons]
      omega
    · have := ih h
      rw [List.length_cons]
      omega

theorem trace_createdAt
    (h : (trace C chain).lookup op = some (o, entry)) : CreatedAt C chain.reverse o op entry := by
  induction chain with
  | nil => simp [trace] at h
  | cons b below ih =>
    rw [List.reverse_cons]
    rcases lookup_trace_cons h with hmem | ⟨-, h⟩
    · obtain ⟨hb, tx, out, htx, hout, hop, he⟩ := mem_creations hmem
      refine ⟨b, tx, out, ?_, htx, hout, hop, hb ▸ he⟩
      rw [hb, ← List.length_reverse, List.getElem?_concat_length]
    · obtain ⟨b', tx, out, hb, htx⟩ := ih h
      refine ⟨b', tx, out, ?_, htx⟩
      rw [List.getElem?_append_left, hb]
      rw [List.length_reverse]
      exact trace_block_lt h

theorem trace_after_spend {above : List Block}
    (hspent : op ∈ b.spentOutpoints) (h : (trace C (above ++ b :: below)).lookup op = some (o, entry)) :
    below.length ≤ o.block := by
  induction above with
  | nil =>
    rcases lookup_trace_cons h with hmem | ⟨hnot, -⟩
    · exact (mem_creations hmem).1.ge
    · exact absurd hspent hnot
  | cons b' above ih =>
    rcases lookup_trace_cons h with hmem | ⟨-, h⟩
    · have hb := (mem_creations hmem).1
      have hlen : (above ++ b :: below).length = above.length + (below.length + 1) := by simp
      have hb : o.block = (above ++ b :: below).length := hb
      omega
    · exact ih h

theorem mem_inputOutpoints (ht : txs[t]? = some tx) (hj : tx.inputs[j]? = some txin) :
    txin.outpoint ∈ inputOutpoints txs :=
  List.mem_flatMap.mpr ⟨tx, List.mem_of_getElem? ht, List.mem_map_of_mem (List.mem_of_getElem? hj)⟩

theorem input_place_unique (hn : (inputOutpoints txs).Nodup) {t' j' : Nat} {tx' : Transaction} {txin' : TxInput}
    (ht : txs[t]? = some tx) (hj : tx.inputs[j]? = some txin) (ht' : txs[t']? = some tx')
    (hj' : tx'.inputs[j']? = some txin') (he : txin.outpoint = txin'.outpoint) :
    t = t' ∧ j = j' := by
  induction txs generalizing t t' with
  | nil => simp at ht
  | cons first rest ih =>
    have hsplit : inputOutpoints (first :: rest) = first.inputs.map TxInput.outpoint ++ inputOutpoints rest := rfl
    rw [hsplit, List.nodup_append] at hn
    obtain ⟨hfirst, hrest, hdisj⟩ := hn
    cases t with
    | zero =>
      obtain rfl : first = tx := by simpa using ht
      cases t' with
      | zero =>
        obtain rfl : first = tx' := by simpa using ht'
        have hlt := (List.getElem?_eq_some_iff.mp hj).1
        refine ⟨rfl, (List.getElem?_inj (by simpa using hlt) hfirst).mp ?_⟩
        rw [List.getElem?_map, List.getElem?_map, hj, hj', Option.map_some, Option.map_some, he]
      | succ t' =>
        rw [List.getElem?_cons_succ] at ht'
        have hin := List.mem_map_of_mem (f := TxInput.outpoint) (List.mem_of_getElem? hj)
        exact absurd he (hdisj _ hin _ (mem_inputOutpoints ht' hj'))
    | succ t =>
      rw [List.getElem?_cons_succ] at ht
      cases t' with
      | zero =>
        obtain rfl : first = tx' := by simpa using ht'
        have hin := List.mem_map_of_mem (f := TxInput.outpoint) (List.mem_of_getElem? hj')
        exact absurd he.symm (hdisj _ hin _ (mem_inputOutpoints ht hj))
      | succ t' =>
        rw [List.getElem?_cons_succ] at ht'
        obtain ⟨rfl, rfl⟩ := ih hrest ht ht'
        exact ⟨rfl, rfl⟩

section

variable {E : NodeEnv} {Offered : Nat → Block → Prop} {issued : Nat}

theorem Mined.spends {above : List Block} (h : Mined C E Offered (above ++ b :: below) issued) :
    b.spentOutpoints.Nodup ∧
      ∀ op ∈ b.spentOutpoints, ∃ entry, SpendableAt E (replay C below) below.length op entry := by
  induction above generalizing issued with
  | nil =>
    cases h with
    | cons hbelow hb hsub ha =>
      cases ha with
      | mk htxs _ hacc _ _ _ _ _ =>
        have hn := hacc.nodup (List.nodup_nil)
        rw [hacc.seen_eq, List.nil_append] at hn
        rw [Block.spentOutpoints, htxs, List.tail_cons]
        refine ⟨hn, fun op hop => ?_⟩
        obtain ⟨entry, -, hs⟩ := forall₂_left_mem hacc.spendable hop
        exact ⟨entry, hsub _ _ hs.known, hs.mature⟩
  | cons b' above ih =>
    cases h with
    | cons hbelow hb hsub ha => exact ih hbelow

end

theorem reverse_take_split {h : Nat} (hb : chain[h]? = some b) (hn : h < n) :
    ∃ above, (chain.take n).reverse = above ++ b :: (chain.take h).reverse := by
  obtain ⟨hlt, hget⟩ := List.getElem?_eq_some_iff.mp hb
  refine ⟨((chain.take n).drop (h + 1)).reverse, ?_⟩
  have hsplit : chain.take n = chain.take h ++ b :: (chain.take n).drop (h + 1) := by
    have hlt' : h < (chain.take n).length := by
      rw [List.length_take]
      omega
    have htake : (chain.take n).take h = chain.take h := by
      rw [List.take_take, Nat.min_eq_left hn.le]
    have hat : (chain.take n)[h] = b := by rw [List.getElem_take, hget]
    rw [← htake, ← hat, ← List.drop_eq_getElem_cons hlt', List.take_append_drop]
  conv_lhs => rw [hsplit]
  simp

theorem CreatedAt.unique {op' : OutPoint} {entry' : UtxoEntry}
    (h : CreatedAt C chain o op entry) (h' : CreatedAt C chain o op' entry') : op = op' := by
  obtain ⟨b, tx, out, hb, htx, -, hop, -⟩ := h
  obtain ⟨b', tx', out', hb', htx', -, hop', -⟩ := h'
  obtain rfl : b = b' := Option.some.inj (hb.symm.trans hb')
  obtain rfl : tx = tx' := Option.some.inj (htx.symm.trans htx')
  rw [hop, hop']

theorem trace_take (h : (trace C (chain.take n).reverse).lookup op = some (o, entry)) :
    o.block < n ∧ CreatedAt C chain o op entry := by
  have hlt := trace_block_lt h
  rw [List.length_reverse, List.length_take] at hlt
  have hn : o.block < n := by omega
  obtain ⟨b, tx, out, hb, hrest⟩ := trace_createdAt h
  rw [List.reverse_reverse, List.getElem?_take, if_pos hn] at hb
  exact ⟨hn, b, tx, out, hb, hrest⟩

namespace ChainState

variable {E : NodeEnv} {Offered : Nat → Block → Prop} {s : ChainState} {i : InputId}

theorem ReachableBy.spendsAt (hs : ReachableBy C E Offered s) (h : SpendsAt s.chain i txin) :
    ∃ b, s.chain[i.block]? = some b ∧ txin.outpoint ∈ b.spentOutpoints ∧ b.spentOutpoints.Nodup ∧
      ∃ entry, SpendableAt E (replay C (s.chain.take i.block).reverse) i.block txin.outpoint entry := by
  obtain ⟨hpos, b, tx, hb, htx, hin⟩ := h
  have hlt := (List.getElem?_eq_some_iff.mp hb).1
  have hop : txin.outpoint ∈ b.spentOutpoints := by
    refine mem_inputOutpoints (t := i.tx - 1) ?_ hin
    rw [List.getElem?_tail, Nat.sub_add_cancel hpos]
    exact htx
  obtain ⟨above, habove⟩ := reverse_take_split hb hlt
  have hmined := hs.replays.rewinds.inv
  rw [← List.take_length (l := s.chain), habove] at hmined
  obtain ⟨hn, hspend⟩ := hmined.spends
  obtain ⟨entry, hentry⟩ := hspend _ hop
  rw [List.length_reverse, List.length_take, Nat.min_eq_left hlt.le] at hentry
  exact ⟨b, hb, hop, hn, entry, hentry⟩

theorem ReachableBy.consumes_unique (hs : ReachableBy C E Offered s) {i' : InputId} (h : Consumes C s.chain i o)
    (h' : Consumes C s.chain i' o) : i = i' := by
  obtain ⟨txin, entry, hin, hl⟩ := h
  obtain ⟨txin', entry', hin', hl'⟩ := h'
  obtain ⟨hlt, hcr⟩ := trace_take hl
  obtain ⟨hlt', hcr'⟩ := trace_take hl'
  have hop := hcr.unique hcr'
  obtain ⟨b, hb, hmem, hn, -⟩ := hs.spendsAt hin
  obtain ⟨b', hb', hmem', -⟩ := hs.spendsAt hin'
  rcases Nat.lt_trichotomy i.block i'.block with hblock | hblock | hblock
  · -- the earlier input has used the outpoint up, and what comes later is another output
    obtain ⟨above, habove⟩ := reverse_take_split hb hblock
    rw [habove, ← hop] at hl'
    have hle := trace_after_spend hmem hl'
    rw [List.length_reverse, List.length_take] at hle
    have := (List.getElem?_eq_some_iff.mp hb).1
    omega
  · obtain ⟨hpos, c, tx, hc, htx, hget⟩ := hin
    obtain ⟨hpos', c', tx', hc', htx', hget'⟩ := hin'
    rw [← hblock] at hc'
    obtain rfl : b = c := Option.some.inj (hb.symm.trans hc)
    obtain rfl : b = c' := Option.some.inj (hb.symm.trans hc')
    have ht : b.transactions.tail[i.tx - 1]? = some tx := by rwa [List.getElem?_tail, Nat.sub_add_cancel hpos]
    have ht' : b.transactions.tail[i'.tx - 1]? = some tx' := by rwa [List.getElem?_tail, Nat.sub_add_cancel hpos']
    have hplace := input_place_unique hn ht hget ht' hget' hop
    cases i
    cases i'
    simp only [InputId.mk.injEq] at hblock hplace hpos hpos' ⊢
    omega
  · obtain ⟨above, habove⟩ := reverse_take_split hb' hblock
    rw [habove, hop] at hl
    have hle := trace_after_spend hmem' hl
    rw [List.length_reverse, List.length_take] at hle
    have := (List.getElem?_eq_some_iff.mp hb').1
    omega

/-- Along the main chain of every reachable state, each created output is consumed by at most one
input, each input consumes an output of a strictly earlier block, and the outputs of a coinbase are
consumed when they are mature. -/
theorem chain_spends_once (hs : Reachable C E s) :
    (∀ i i' o, Consumes C s.chain i o → Consumes C s.chain i' o → i = i') ∧
    (∀ i txin, SpendsAt s.chain i txin → ∃ o entry, Consumes C s.chain i o ∧ o.block < i.block ∧
      CreatedAt C s.chain o txin.outpoint entry) ∧
    (∀ i o, Consumes C s.chain i o → o.tx = 0 → o.block + coinbaseMaturity E ≤ i.block) := by
  refine ⟨fun i i' o h h' => hs.consumes_unique h h', fun i txin hin => ?_, fun i o h hcb => ?_⟩
  · obtain ⟨b, -, -, -, entry, hentry⟩ := hs.spendsAt hin
    have hl := hentry.known
    rw [lookup_replay, Option.map_eq_some_iff] at hl
    obtain ⟨⟨o, _⟩, hl, rfl⟩ := hl
    obtain ⟨hlt, hcr⟩ := trace_take hl
    exact ⟨o, _, ⟨txin, _, hin, hl⟩, hlt, hcr⟩
  · obtain ⟨txin, entry, hin, hl⟩ := h
    obtain ⟨b, -, -, -, entry', hentry⟩ := hs.spendsAt hin
    have hl' := hentry.known
    rw [lookup_replay, hl, Option.map_some, Option.some.injEq] at hl'
    subst hl'
    obtain ⟨hlt, b', tx, out, -, -, -, -, rfl⟩ := trace_take hl
    have hm := hentry.mature (by simp [hcb])
    simp only at hm
    omega

def spendNode : NodeEnv := { devnetNode with number := fun v => if v = .coinbaseMaturity then some 1 else none }

def coinbaseSpendSignature : SignedDigest where
  digest := beVec 32 0xc1d54edc60fcaafb47ad1fd7a03829ca17a7dec6866345b7054f4280ccf70c48
  signature := beVec 64 0xf0cc6bdb815214515c20cd0d92368f1df6ca03eaf177fb3c334f8e3954c833f77624e7b60f65efab5128587e0d9e18b5031bde1994c750ec6a16dcdde0e3e2a1
  der := (beVec 71 0x3045022100f0cc6bdb815214515c20cd0d92368f1df6ca03eaf177fb3c334f8e3954c833f702207624e7b60f65efab5128587e0d9e18b5031bde1994c750ec6a16dcdde0e3e2a1).bytes

def spendCrypto : Crypto := signedCrypto coinbaseSpendSignature

def keyOutput : TxOutput := ⟨5000000000, p2pkhScript keyOnePkh⟩

def coinbaseSpend : Transaction where
  version := 1
  inputs :=
    [{ prevTxid := beVec 32 0x8c90bfd5225324ea378cd8029a4964ed8329f6da56ca4ab3e72866603c04df3a
       prevIndex := 0
       scriptSig := [72] ++ coinbaseSpendSignature.der ++ [1] ++ [33] ++ keyOne.bytes
       sequence := 0xffffffff }]
  outputs := [⟨5000000000, p2pkhScript (ByteVec.zero 20)⟩]
  locktime := 0

def keyBlock : Block :=
  devnetBlock lockedGenesisHash (beVec 32 0x3adf043c606628e7b34aca56daf62983ed64499a02d88c37ea245322d5bf908c)
    1767583931 0 [coinbaseTx [] [keyOutput]]

def coinbaseSpendBlock : Block :=
  devnetBlock (beVec 32 0x527b586b9a5329eff0c926064fcba478b5b9e46f9c6cb667cac6287cd1c63ac1)
    (beVec 32 0x463b73eead4df53b0a4ddc608799a405fb27490ea6d9f06000d0a6c38df34913)
    1767583932 0 [coinbaseTx [2] [keyOutput], coinbaseSpend]

theorem coinbase_spent_once :
    ∃ s, Reachable spendCrypto spendNode s ∧ Consumes spendCrypto s.chain ⟨2, 1, 0⟩ ⟨1, 0, 0⟩ ∧
      ∀ i, Consumes spendCrypto s.chain i ⟨1, 0, 0⟩ → i = ⟨2, 1, 0⟩ := by
  obtain ⟨s, hs, hchain⟩ := exists_reachable_of_runOf (C := spendCrypto) (E := spendNode) quietAmbient
    (nodeParams spendNode none none lockedGenesis) [coinbaseSpendBlock, keyBlock]
    (fun s => s.chain = [lockedGenesis, keyBlock, coinbaseSpendBlock]) (by decide +kernel)
  have hc : Consumes spendCrypto s.chain ⟨2, 1, 0⟩ ⟨1, 0, 0⟩ := by
    have hl : (trace spendCrypto [keyBlock, lockedGenesis]).lookup
        ⟨beVec 32 0x8c90bfd5225324ea378cd8029a4964ed8329f6da56ca4ab3e72866603c04df3a, 0⟩ =
          some (⟨1, 0, 0⟩, ⟨keyOutput, 1, true⟩) := by decide +kernel
    rw [hchain]
    exact ⟨_, _, ⟨Nat.one_pos, coinbaseSpendBlock, coinbaseSpend, rfl, rfl, rfl⟩, hl⟩
  exact ⟨s, hs, hc, fun i hi => (chain_spends_once hs).1 i ⟨2, 1, 0⟩ ⟨1, 0, 0⟩ hi hc⟩

/-- Whatever branches a node has been on, what it lists as unspent was created on the main chain and is consumed by no
input there. -/
theorem unspent_of_chain (hs : Reachable C E s) (h : s.utxos.lookup op = some entry) :
    ∃ o, CreatedAt C s.chain o op entry ∧ ∀ i, ¬Consumes C s.chain i o := by
  have hl := hs.replays.utxos op entry h
  rw [lookup_replay, Option.map_eq_some_iff] at hl
  obtain ⟨⟨o, _⟩, hl, rfl⟩ := hl
  rw [← List.take_length (l := s.chain)] at hl
  obtain ⟨-, hcr⟩ := trace_take hl
  refine ⟨o, hcr, fun i hi => ?_⟩
  obtain ⟨txin, entry', hin, hl'⟩ := hi
  obtain ⟨hlt, hcr'⟩ := trace_take hl'
  obtain ⟨b, hb, hmem, -⟩ := hs.spendsAt hin
  obtain ⟨hlen, -⟩ := List.getElem?_eq_some_iff.mp hb
  obtain ⟨above, habove⟩ := reverse_take_split hb hlen
  -- after the input, the outpoint can only stand for an output of a later block
  rw [habove, hcr.unique hcr'] at hl
  have hle := trace_after_spend hmem hl
  rw [List.length_reverse, List.length_take] at hle
  omega

theorem unspent_of_chain_key : ∃ s op entry, Reachable spendCrypto spendNode s ∧ s.utxos.lookup op = some entry ∧
    ∃ o, CreatedAt spendCrypto s.chain o op entry ∧ ∀ i, ¬Consumes spendCrypto s.chain i o := by
  obtain ⟨s, hs, h⟩ := exists_reachable_of_runOf (C := spendCrypto) (E := spendNode) quietAmbient
    (nodeParams spendNode none none lockedGenesis) [keyBlock]
    (fun s => s.utxos.lookup ⟨beVec 32 0x8c90bfd5225324ea378cd8029a4964ed8329f6da56ca4ab3e72866603c04df3a, 0⟩ =
      some ⟨keyOutput, 1, true⟩) (by decide +kernel)
  exact ⟨s, _, _, hs, h, unspent_of_chain hs h⟩

end ChainState

end IriumConsensus
