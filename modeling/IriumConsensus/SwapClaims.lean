import IriumConsensus.ApplyRules

namespace IriumConsensus

open ByteCodec Checks FinMaps Stateful

variable {flags : SpendFlags} {consumed : Consumed}

def OutputEncumbrance.swap : OutputEncumbrance → Option (ForeignChain × HtlcSwapOutput)
  | .htlcBtcSwapV1 swap => some (.btc, swap)
  | .htlcLtcSwapV1 swap => some (.ltc, swap)
  | _ => none

structure SwapClaim where
  chain : ForeignChain
  swap : HtlcSwapOutput
  blockHash : Hash32
  branch : List Hash32
  index : UInt32
  txRaw : Bytes
  deriving DecidableEq, Repr

def swapClaim (utxos : FinMap OutPoint UtxoEntry) (txin : TxInput) : Option SwapClaim := do
  let entry ← utxos.lookup txin.outpoint
  let spent ← (parseOutputEncumbrance entry.output.scriptPubkey).swap
  match ← parseHtlcSwapWitness txin.scriptSig with
  | .claim _ _ blockHash branch index txRaw => return ⟨spent.1, spent.2, blockHash, branch, index, txRaw⟩
  | .refund _ _ => none

def swapClaims (utxos : FinMap OutPoint UtxoEntry) (inputs : List TxInput) : List SwapClaim :=
  inputs.filterMap (swapClaim utxos)

def Consumed.get (c : Consumed) : ForeignChain → List ForeignOutpoint
  | .btc => c.btc
  | .ltc => c.ltc

def Consumed.push (c : Consumed) (chain : ForeignChain) (op : ForeignOutpoint) : Consumed :=
  match chain with
  | .btc => { c with btc := c.btc ++ [op] }
  | .ltc => { c with ltc := c.ltc ++ [op] }

def Ledger.claimed (L : Ledger) : ForeignChain → Finset ForeignOutpoint
  | .btc => L.btc.claimed
  | .ltc => L.ltc.claimed

namespace SwapClaim

variable (C : Crypto) (k : SwapClaim)

def rules (bech32Active : Bool) : SwapRules :=
  match k.chain with
  | .btc => btcSwapRules bech32Active
  | .ltc => ltcSwapRules

/-- The outpoint that the claim uses up: the foreign transaction and its binding output. -/
def outpoint : Option ForeignOutpoint := do
  let txid ← btcTxid C k.txRaw
  let outs ← parseBtcTxOutputs k.txRaw
  let binding ← outs.find? (bindsSwap (k.rules true) k.swap)
  return (txid, binding.vout)

def PaidBy (op : ForeignOutpoint) : Prop :=
  ∃ outs o, btcTxid C k.txRaw = some op.1 ∧ parseBtcTxOutputs k.txRaw = some outs ∧ o ∈ outs ∧
    paysSwap (k.rules true) k.swap o ∧ o.vout = op.2

theorem bindsSwap_rules (bech32Active : Bool) :
    bindsSwap (k.rules bech32Active) k.swap = bindsSwap (k.rules true) k.swap := by
  funext o
  unfold bindsSwap rules
  cases k.chain <;> rfl

end SwapClaim

variable {C : Crypto} {E : NodeEnv} {P : ChainParams} {L : Ledger} {height i : Nat} {tx : Transaction} {k : SwapClaim}
  {op : ForeignOutpoint}

/-- The claim `k` was accepted under the relay and the outpoints used up so far. -/
structure ClaimAccepted (C : Crypto) (flags : SpendFlags) (L : Ledger) (consumed : Consumed) (k : SwapClaim)
    (op : ForeignOutpoint) : Prop where
  proven : provenPayment C (k.rules flags.btcSwapBech32Payment) k.swap (L.relay k.chain) k.blockHash k.branch
    k.index k.txRaw = some op
  unclaimed : op ∉ L.claimed k.chain
  fresh : op ∉ consumed.get k.chain

theorem verifyTransactionSignature_claim {txin : TxInput} {entry : UtxoEntry} {consumed' : Consumed}
    (hentry : L.utxos.lookup txin.outpoint = some entry)
    (h : verifyTransactionSignature C tx i txin entry.output height flags L.view consumed = some consumed') :
    swapClaim L.utxos txin = none ∧ consumed' = consumed ∨
      ∃ k op, swapClaim L.utxos txin = some k ∧ ClaimAccepted C flags L consumed k op ∧
        consumed' = consumed.push k.chain op := by
  unfold verifyTransactionSignature at h
  cases hE : parseOutputEncumbrance entry.output.scriptPubkey <;> rw [hE] at h <;> dsimp only at h
  case htlcBtcSwapV1 swap =>
    rw [refuse_eq_some, Option.map_eq_some_iff] at h
    obtain ⟨-, btc, hv, rfl⟩ := h
    rcases verifySwapSpend_iff.mp hv with ⟨_, _, hw, -, -, -, rfl⟩ |
      ⟨_, _, blockHash, branch, index, txRaw, op, hw, hpay, hnew, hc, -, -, rfl⟩
    · exact .inl ⟨by simp [swapClaim, hentry, OutputEncumbrance.swap, hw], rfl⟩
    · refine .inr ⟨⟨.btc, swap, blockHash, branch, index, txRaw⟩, op, ?_, ⟨hpay, hnew, hc⟩, rfl⟩
      simp [swapClaim, hentry, hE, OutputEncumbrance.swap, hw]
  case htlcLtcSwapV1 swap =>
    rw [refuse_eq_some, Option.map_eq_some_iff] at h
    obtain ⟨-, ltc, hv, rfl⟩ := h
    rcases verifySwapSpend_iff.mp hv with ⟨_, _, hw, -, -, -, rfl⟩ |
      ⟨_, _, blockHash, branch, index, txRaw, op, hw, hpay, hnew, hc, -, -, rfl⟩
    · exact .inl ⟨by simp [swapClaim, hentry, OutputEncumbrance.swap, hw], rfl⟩
    · refine .inr ⟨⟨.ltc, swap, blockHash, branch, index, txRaw⟩, op, ?_, ⟨hpay, hnew, hc⟩, rfl⟩
      simp [swapClaim, hentry, hE, OutputEncumbrance.swap, hw]
  case unknown => simp at h
  all_goals
    -- the other kinds are no swaps and leave the consumed outpoints as they are
    refine .inl ⟨by simp [swapClaim, hentry, hE, OutputEncumbrance.swap], ?_⟩
    simp only [refuse_eq_some, Option.ite_none_right_eq_some, Option.some.injEq] at h
    first
      | exact h.2.2.symm
      | exact h.2.symm

def outpointsOn (C : Crypto) (chain : ForeignChain) (ks : List SwapClaim) : List ForeignOutpoint :=
  (ks.filter fun k => k.chain = chain).filterMap (SwapClaim.outpoint C)

/-- Claims that were accepted one after the other: each has used up an outpoint of its own. -/
structure ClaimsAdded (C : Crypto) (claimed : ForeignChain → Finset ForeignOutpoint) (ks : List SwapClaim)
    (c c' : Consumed) : Prop where
  added : ∀ chain, c'.get chain = c.get chain ++ outpointsOn C chain ks
  nodup : ∀ chain, (c.get chain).Nodup → (c'.get chain).Nodup
  unclaimed : ∀ chain, ∀ op ∈ outpointsOn C chain ks, op ∉ claimed chain
  known : ∀ k ∈ ks, ∃ op, k.outpoint C = some op

namespace ClaimsAdded

variable {claimed : ForeignChain → Finset ForeignOutpoint} {ks ks' : List SwapClaim} {c c' c'' : Consumed}

theorem refl (c : Consumed) : ClaimsAdded C claimed [] c c :=
  ⟨fun chain => by simp [outpointsOn], fun _ h => h, fun chain => by simp [outpointsOn], by simp⟩

theorem outpointsOn_append (chain : ForeignChain) (ks ks' : List SwapClaim) :
    outpointsOn C chain (ks ++ ks') = outpointsOn C chain ks ++ outpointsOn C chain ks' := by
  simp [outpointsOn]

theorem trans (h : ClaimsAdded C claimed ks c c') (h' : ClaimsAdded C claimed ks' c' c'') :
    ClaimsAdded C claimed (ks ++ ks') c c'' where
  added chain := by rw [h'.added, h.added, outpointsOn_append, List.append_assoc]
  nodup chain hn := h'.nodup chain (h.nodup chain hn)
  unclaimed chain op hop := by
    rw [outpointsOn_append] at hop
    rcases List.mem_append.mp hop with hop | hop
    · exact h.unclaimed chain op hop
    · exact h'.unclaimed chain op hop
  known k hk := by
    rcases List.mem_append.mp hk with hk | hk
    · exact h.known k hk
    · exact h'.known k hk

end ClaimsAdded

theorem Consumed.get_push (c : Consumed) (chain chain' : ForeignChain) (op : ForeignOutpoint) :
    (c.push chain op).get chain' = c.get chain' ++ if chain = chain' then [op] else [] := by
  cases chain <;> cases chain' <;> simp [Consumed.push, Consumed.get]

theorem ClaimAccepted.outpoint_eq (h : ClaimAccepted C flags L consumed k op) : k.outpoint C = some op := by
  obtain ⟨txid, _, _, outs, _, binding, -, -, -, htx, -, houts, -, -, hbind, rfl⟩ := provenPayment_passed h.proven
  rw [k.bindsSwap_rules] at hbind
  have hfind : outs.find? (bindsSwap (k.rules true) k.swap) = some binding := by
    rw [← List.head?_filter, hbind, List.head?_cons]
  simp [SwapClaim.outpoint, htx, houts, hfind]

theorem ClaimAccepted.added {c : Consumed} (h : ClaimAccepted C flags L c k op) :
    ClaimsAdded C L.claimed [k] c (c.push k.chain op) where
  added chain := by
    rw [Consumed.get_push]
    by_cases hc : k.chain = chain <;> simp [outpointsOn, hc, h.outpoint_eq]
  nodup chain hn := by
    rw [Consumed.get_push]
    split
    next hc =>
      subst hc
      rw [← List.concat_eq_append]
      exact hn.concat h.fresh
    next => simpa using hn
  unclaimed chain op' hop := by
    by_cases hc : k.chain = chain
    · simp only [outpointsOn, hc, List.filter_cons, decide_true, ↓reduceIte, List.filter_nil, List.filterMap_cons,
        h.outpoint_eq, List.filterMap_nil, List.mem_singleton] at hop
      rw [hop, ← hc]
      exact h.unclaimed
    · simp [outpointsOn, hc] at hop
  known k' hk := ⟨op, by rw [List.mem_singleton.mp hk]; exact h.outpoint_eq⟩

theorem checkInputs_claims {inputs : List TxInput} {seen : List OutPoint} {total : Int}
    {result : List OutPoint × Consumed × Int}
    (h : checkInputs C E P L height tx i inputs seen consumed total = .ok result) :
    ClaimsAdded C L.claimed (swapClaims L.utxos inputs) consumed result.2.1 := by
  induction inputs generalizing i seen consumed total with
  | nil =>
    simp only [checkInputs, Except.ok.injEq] at h
    subst h
    exact .refl consumed
  | cons txin inputs ih =>
    simp only [checkInputs, bind_eq_ok] at h
    obtain ⟨found, hfound, h⟩ := h
    simp only [checkInput, bind_eq_ok, exists_unit, failIf_eq_ok, orFail_eq_ok, pure_eq_ok] at hfound
    obtain ⟨-, entry, hentry, -, c', hv, rfl⟩ := hfound
    rcases verifyTransactionSignature_claim hentry hv with ⟨hnone, rfl⟩ | ⟨k, op, hk, ha, rfl⟩
    · rw [swapClaims, List.filterMap_cons_none hnone]
      exact ih h
    · rw [swapClaims, List.filterMap_cons_some hk]
      exact ha.added.trans (ih h)

theorem validateTransactionInternal_claims {acc acc' : TxAcc}
    (h : validateTransactionInternal C E P L tx height acc = .ok acc') :
    ClaimsAdded C L.claimed (swapClaims L.utxos tx.inputs) acc.consumed acc'.consumed := by
  simp only [validateTransactionInternal, bind_eq_ok, exists_unit, pure_eq_ok] at h
  obtain ⟨spent, hspent, -, -, -, rfl⟩ := h
  exact checkInputs_claims hspent

def Block.inputs (b : Block) : List TxInput := b.transactions.tail.flatMap Transaction.inputs

theorem RelaysMoved.claimed_eq {L' : Ledger} {updates : RelayUpdates} (h : RelaysMoved L updates L') :
    L'.claimed = L.claimed := by
  funext chain
  cases chain
  · exact h.btcClaimed
  · exact h.ltcClaimed

theorem applyRegularTransactions_claims {blockTime : UInt32} (txs : List Transaction) (acc : TxAcc)
    (updates : RelayUpdates) :
    Triple (RelaysMoved L updates) (applyRegularTransactions C E P height blockTime txs acc updates)
      (fun result L' => RelaysMoved L result.2 L' ∧ ClaimsAdded C L.claimed
        (swapClaims L.utxos (txs.flatMap Transaction.inputs)) acc.consumed result.1.consumed)
      (SomeMoved L) := by
  refine applyRegularTransactions_induct (R := fun txs acc acc' => ClaimsAdded C L.claimed
    (swapClaims L.utxos (txs.flatMap Transaction.inputs)) acc.consumed acc'.consumed)
    (fun acc => .refl acc.consumed) ?_ txs acc updates
  rintro L' tx txs acc acc' acc'' ⟨updates, hm⟩ ha hrest
  have hk := validateTransactionInternal_claims ha
  rw [hm.claimed_eq, hm.utxos] at hk
  rw [List.flatMap_cons, swapClaims, List.filterMap_append]
  exact hk.trans hrest

theorem validateAndApplyTransactions_claims (b : Block) (reward : Nat) (enforceReward : Bool)
    (maxSubsidy : Option Nat) :
    Triple (· = L) (validateAndApplyTransactions C E P height b reward enforceReward maxSubsidy)
      (fun undo _ => ClaimsAdded C L.claimed (swapClaims L.utxos b.inputs) ⟨[], []⟩ undo.claimedAdded)
      (fun _ => True) := by
  refine .lift_bind (fun _ _ => trivial) fun coinbase _ => .lift_bind (fun _ _ => trivial) fun _ _ =>
    .lift_bind (fun _ _ => trivial) fun _ _ => ?_
  have hstart : ∀ L', L' = L → RelaysMoved L ⟨none, none⟩ L' := by rintro _ rfl; exact .refl _
  refine .bind ((applyRegularTransactions_claims b.transactions.tail ⟨[], 0, ⟨[], []⟩⟩ ⟨none, none⟩).mono hstart
    (fun _ _ h => h) fun _ _ => trivial) fun regular => .assume fun hk => ?_
  refine .bind ((applyCoinbaseOutputs_triple coinbase.outputs [] regular.2 0 (Nat.zero_le _)).mono
    (fun _ h => h) (fun _ _ _ => trivial) fun _ _ => trivial) (Q := fun _ _ => True) fun paid => ?_
  refine .lift_bind (fun _ _ => trivial) fun _ _ => .lift_bind (fun _ _ => trivial) fun _ _ =>
    .read_bind fun Lr _ => .update_bind (M := fun _ => True) (fun _ _ => trivial) (.pure fun _ _ => hk)

end IriumConsensus
