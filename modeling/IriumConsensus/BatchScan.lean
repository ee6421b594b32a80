import IriumConsensus.Lib.Scan
import IriumConsensus.WellFormed

namespace IriumConsensus

open Checks FinMaps Stateful

variable {r r' : Relay} {u : RelayUpdate}

def HeadersGrow (L L' : Ledger) : Prop :=
  ∀ chain k, k ∈ (L.relay chain).headers → k ∈ (L'.relay chain).headers

instance : IsPreorder Ledger HeadersGrow where
  refl _ _ _ h := h
  trans _ _ _ h h' chain k hk := h' chain k (h chain k hk)

def Grown (L L' : Ledger) : Prop := ∃ chain k, k ∈ (L'.relay chain).headers ∧ k ∉ (L.relay chain).headers

theorem Grown.mono {L : Ledger} (L' L'' : Ledger) (h : HeadersGrow L' L'') (hg : Grown L L') : Grown L L'' := by
  obtain ⟨chain, k, hk, hn⟩ := hg
  exact ⟨chain, k, h chain k hk, hn⟩

theorem Grown.ne {L L' : Ledger} (h : Grown L L') : L' ≠ L := by
  rintro rfl
  obtain ⟨chain, k, hk, hn⟩ := h
  exact hn hk

theorem RelayStep.grows (h : RelayStep r u r') (k : Hash32)
    (hk : k ∈ r.headers) : k ∈ r'.headers := by
  cases h with
  | unchanged => exact hk
  | extended hne hf => exact mem_insertAll.mpr (.inl hk)

theorem RelayStep.exists_new (h : RelayStep r u r') (hu : u.headersAdded ≠ []) :
    ∃ k, k ∈ r'.headers ∧ k ∉ r.headers := by
  cases h with
  | unchanged => exact absurd rfl hu
  | @extended anchor staged hne hf =>
    obtain ⟨p, rest, rfl⟩ := List.exists_cons_of_ne_nil hne
    exact ⟨p.1, mem_insertAll.mpr (by simp), hf.unknown p.1 (by simp)⟩

theorem RelayStep.eq_of_nil (h : RelayStep r u r') (hu : u.headersAdded = []) :
    r' = r := by
  by_contra hne
  exact (h.changed_iff.mp hne) hu

@[simp] theorem Ledger.setRelay_self (L : Ledger) (chain : ForeignChain) : L.setRelay chain (L.relay chain) = L := by
  cases chain <;> rfl

theorem headersGrow_setRelay {L : Ledger} {chain : ForeignChain}
    (h : RelayStep (L.relay chain) u r) : HeadersGrow L (L.setRelay chain r) := by
  intro chain' k hk
  by_cases hc : chain' = chain
  · subst hc
    rw [Ledger.relay_setRelay_self]
    exact h.grows k hk
  · rwa [Ledger.relay_setRelay_of_ne _ _ hc]

section

variable (C : Crypto) (E : NodeEnv) (P : ChainParams) (height : Nat) (blockTime : UInt32) (L : Ledger)

/-- Apart from the relay itself, nothing shows whether a batch that adds no header was applied. -/
def scanApplied (chain : ForeignChain) (updates : RelayUpdates) (applied : RelayUpdate × Relay) :
    Scan RelayUpdates :=
  if applied.1.headersAdded = [] then .passes (updates.set chain applied.1) else .marks

def scanBatchOutput (chain : ForeignChain) (out : TxOutput) (updates : RelayUpdates) : Scan RelayUpdates := do
  Scan.refuse (P.spvRelayActiveAt chain height = false)
  Scan.refuse ((updates.get chain).isSome)
  let headers ← Scan.check (chain.parseBatch out.scriptPubkey)
  let applied ← Scan.check (P.applyHeaderBatch C chain headers blockTime (L.relay chain))
  scanApplied chain updates applied

def scanBatchOutputs : List TxOutput → RelayUpdates → Scan RelayUpdates
  | [], updates => pure updates
  | out :: rest, updates =>
    match out.batchChain with
    | some chain => do
      let updates ← scanBatchOutput C P height blockTime L chain out updates
      scanBatchOutputs rest updates
    | none => scanBatchOutputs rest updates

/-- The transactions after the coinbase, all checked against the same ledger. -/
def scanRegularTransactions : List Transaction → TxAcc → RelayUpdates → Scan (TxAcc × RelayUpdates)
  | [], acc, updates => pure (acc, updates)
  | tx :: rest, acc, updates => do
    let acc ← Scan.check (validateTransactionInternal C E P L tx height acc)
    let updates ← scanBatchOutputs C P height blockTime L tx.outputs updates
    scanRegularTransactions rest acc updates

def scanCoinbaseBatch (chain : ForeignChain) (out : TxOutput) (seen : List ForeignChain)
    (updates : RelayUpdates) : Scan RelayUpdates := do
  Scan.refuse (P.coinbaseHeaderBatchActiveAt height = false)
  Scan.refuse (P.spvRelayActiveAt chain height = false)
  Scan.refuse (out.value ≠ 0)
  Scan.refuse (chain ∈ seen)
  Scan.refuse ((updates.get chain).isSome)
  let headers ← Scan.check (chain.parseBatch out.scriptPubkey)
  match P.applyHeaderBatch C chain headers blockTime (L.relay chain) with
  | .ok applied => scanApplied chain updates applied
  | .error e => if softApplyError e then pure updates else .fails

def scanCoinbaseOutputs : List TxOutput → List ForeignChain → RelayUpdates → Nat → Scan (RelayUpdates × Nat)
  | [], _, updates, total => pure (updates, total)
  | out :: rest, seen, updates, total =>
    match out.batchChain with
    | some chain => do
      let updates ← scanCoinbaseBatch C P height blockTime L chain out seen updates
      scanCoinbaseOutputs rest (chain :: seen) updates total
    | none =>
      if isLegacyCarrier height out then scanCoinbaseOutputs rest seen updates total
      else do
        let _ ← Scan.check (validateOutput C P out height)
        Scan.refuse (maxMoney < total + out.value.toNat)
        scanCoinbaseOutputs rest seen updates (total + out.value.toNat)

def scanBlock (b : Block) : Scan Unit := do
  let coinbase ← Scan.check (orFail b.transactions.head? "Block must include transactions")
  Scan.refuse (isCoinbase coinbase = false)
  Scan.refuse (coinbase.outputs = [])
  let regular ← scanRegularTransactions C E P height b.header.time L b.transactions.tail ⟨[], 0, ⟨[], []⟩⟩
    ⟨none, none⟩
  let _ ← scanCoinbaseOutputs C P height b.header.time L coinbase.outputs [] regular.2 0
  return ()

end

section

variable {C : Crypto} {E : NodeEnv} {P : ChainParams} {height : Nat} {blockTime : UInt32}

theorem applyBatchOutput_grows (chain : ForeignChain) (out : TxOutput) (updates : RelayUpdates) :
    Steps HeadersGrow (applyBatchOutput C P height blockTime chain out updates) := by
  refine .of_triple fun L => ?_
  have hF : ∀ L', L' = L → HeadersGrow L L' := by rintro _ rfl; exact refl_of HeadersGrow _
  refine .lift_bind hF fun _ _ => .lift_bind hF fun _ _ => .lift_bind hF fun headers _ =>
    .read_bind fun L' hL => .lift_bind (by rintro _ rfl; exact hF _ hL) fun applied ha =>
      .update_bind (M := HeadersGrow L) ?_ (.pure fun _ h => h)
  rintro _ rfl
  subst hL
  exact headersGrow_setRelay (applyHeaderBatch_step (mapError_eq_ok.mp ha))

theorem applyBatchOutputs_grows (outs : List TxOutput) (updates : RelayUpdates) :
    Steps HeadersGrow (applyBatchOutputs C P height blockTime outs updates) := by
  induction outs generalizing updates with
  | nil => exact .pure updates
  | cons out rest ih =>
    unfold applyBatchOutputs
    split
    next chain _ => exact .bind (applyBatchOutput_grows chain out updates) ih
    next => exact ih updates

theorem applyRegularTransactions_grows (txs : List Transaction) (acc : TxAcc) (updates : RelayUpdates) :
    Steps HeadersGrow (applyRegularTransactions C E P height blockTime txs acc updates) := by
  induction txs generalizing acc updates with
  | nil => exact .pure (acc, updates)
  | cons tx rest ih =>
    exact .bind .read fun L => .bind (.lift _) fun acc' => .bind (applyBatchOutputs_grows tx.outputs updates)
      fun updates' => ih acc' updates'

theorem applyCoinbaseBatch_grows (chain : ForeignChain) (out : TxOutput) (seen : List ForeignChain)
    (updates : RelayUpdates) : Steps HeadersGrow (applyCoinbaseBatch C P height blockTime chain out seen updates) := by
  refine .of_triple fun L => ?_
  have hF : ∀ L', L' = L → HeadersGrow L L' := by rintro _ rfl; exact refl_of HeadersGrow _
  refine .lift_bind hF fun _ _ => .lift_bind hF fun _ _ => .lift_bind hF fun _ _ => .lift_bind hF fun _ _ =>
    .lift_bind hF fun _ _ => .lift_bind hF fun headers _ => .read_bind fun L' hL => ?_
  subst hL
  split
  next applied ha =>
    refine .update_bind (M := HeadersGrow L') ?_ (.pure fun _ h => h)
    rintro _ rfl
    exact headersGrow_setRelay (applyHeaderBatch_step ha)
  next =>
    split
    next => exact .pure hF
    next => exact .fail hF _

theorem applyCoinbaseOutputs_grows (outs : List TxOutput) (seen : List ForeignChain) (updates : RelayUpdates)
    (total : Nat) : Steps HeadersGrow (applyCoinbaseOutputs C P height blockTime outs seen updates total) := by
  induction outs generalizing seen updates total with
  | nil => exact .pure (updates, total)
  | cons out rest ih =>
    unfold applyCoinbaseOutputs
    split
    next chain _ =>
      exact .bind (applyCoinbaseBatch_grows chain out seen updates) fun updates' => ih (chain :: seen) updates' total
    next =>
      split
      next => exact ih seen updates total
      next => exact .bind (.lift _) fun _ => .bind (.lift _) fun _ => ih seen updates _

end

section

variable {C : Crypto} {E : NodeEnv} {P : ChainParams} {height : Nat} {blockTime : UInt32} {L : Ledger}

/-- A batch that adds no header leaves the ledger as it is; any other leaves a new header. -/
theorem scanApplied_foretells {chain : ForeignChain} {headers : List ForeignHeader} {updates : RelayUpdates}
    {applied : RelayUpdate × Relay}
    (h : P.applyHeaderBatch C chain headers blockTime (L.relay chain) = .ok applied) :
    Foretells (Grown L) L (scanApplied chain updates applied)
      (do update (Ledger.setRelay chain applied.2); return updates.set chain applied.1 :
        Run Ledger String RelayUpdates) := by
  have hs := applyHeaderBatch_step h
  unfold scanApplied
  split
  next hnil =>
    rw [Foretells, update_bind, hs.eq_of_nil hnil, Ledger.setRelay_self]
    rfl
  next hne =>
    obtain ⟨k, hk, hn⟩ := hs.exists_new hne
    refine ⟨chain, k, ?_, hn⟩
    rw [update_bind, pure_apply, Ledger.relay_setRelay_self]
    exact hk

theorem applyBatchOutput_foretold (chain : ForeignChain) (out : TxOutput) (updates : RelayUpdates) :
    Foretells (Grown L) L (scanBatchOutput C P height blockTime L chain out updates)
      (applyBatchOutput C P height blockTime chain out updates) :=
  .refuse_bind fun _ => .refuse_bind fun _ => .mapError_bind fun _ _ => .read_bind <|
    .mapError_bind fun _ ha => scanApplied_foretells ha

theorem applyBatchOutputs_foretold (outs : List TxOutput) (updates : RelayUpdates) :
    Foretells (Grown L) L (scanBatchOutputs C P height blockTime L outs updates)
      (applyBatchOutputs C P height blockTime outs updates) := by
  induction outs generalizing updates with
  | nil => exact .pure updates
  | cons out rest ih =>
    cases hc : out.batchChain with
    | none =>
      simp only [applyBatchOutputs, scanBatchOutputs, hc]
      exact ih updates
    | some chain =>
      simp only [applyBatchOutputs, scanBatchOutputs, hc]
      exact .bind Grown.mono (applyBatchOutput_foretold chain out updates) ih (applyBatchOutputs_grows rest)

theorem applyRegularTransactions_foretold (txs : List Transaction) (acc : TxAcc) (updates : RelayUpdates) :
    Foretells (Grown L) L (scanRegularTransactions C E P height blockTime L txs acc updates)
      (applyRegularTransactions C E P height blockTime txs acc updates) := by
  induction txs generalizing acc updates with
  | nil => exact .pure (acc, updates)
  | cons tx rest ih =>
    exact .read_bind <| .check_bind fun acc' _ => .bind Grown.mono (applyBatchOutputs_foretold tx.outputs updates)
      (ih acc') (applyRegularTransactions_grows rest acc')

theorem applyCoinbaseBatch_foretold (chain : ForeignChain) (out : TxOutput) (seen : List ForeignChain)
    (updates : RelayUpdates) :
    Foretells (Grown L) L (scanCoinbaseBatch C P height blockTime L chain out seen updates)
      (applyCoinbaseBatch C P height blockTime chain out seen updates) := by
  refine .refuse_bind fun _ => .refuse_bind fun _ => .refuse_bind fun _ => .refuse_bind fun _ =>
    .refuse_bind fun _ => .mapError_bind fun headers _ => .read_bind ?_
  cases ha : P.applyHeaderBatch C chain headers blockTime (L.relay chain) with
  | ok applied => exact scanApplied_foretells ha
  | error e =>
    by_cases hsoft : softApplyError e
    · simp only [hsoft, ↓reduceIte]
      exact .pure updates
    · simp only [hsoft, Bool.false_eq_true, ↓reduceIte]
      exact .fail _

theorem applyCoinbaseOutputs_foretold (outs : List TxOutput) (seen : List ForeignChain) (updates : RelayUpdates)
    (total : Nat) :
    Foretells (Grown L) L (scanCoinbaseOutputs C P height blockTime L outs seen updates total)
      (applyCoinbaseOutputs C P height blockTime outs seen updates total) := by
  induction outs generalizing seen updates total with
  | nil => exact .pure (updates, total)
  | cons out rest ih =>
    cases hc : out.batchChain with
    | some chain =>
      simp only [applyCoinbaseOutputs, scanCoinbaseOutputs, hc]
      exact .bind Grown.mono (applyCoinbaseBatch_foretold chain out seen updates)
        (fun updates' => ih (chain :: seen) updates' total)
        fun updates' => applyCoinbaseOutputs_grows rest (chain :: seen) updates' total
    | none =>
      by_cases hl : isLegacyCarrier height out
      · simp only [applyCoinbaseOutputs, scanCoinbaseOutputs, hc, hl, ↓reduceIte]
        exact ih seen updates total
      · simp only [applyCoinbaseOutputs, scanCoinbaseOutputs, hc, hl, Bool.false_eq_true, ↓reduceIte]
        exact .check_bind fun _ _ => .refuse_bind fun _ => ih seen updates _

theorem headersGrow_commit (L : Ledger) (acc : TxAcc) (created : List (OutPoint × UtxoEntry)) :
    HeadersGrow L (L.commit acc created) := by
  intro chain k hk
  rwa [Ledger.commit_relay]

/-- A failed block has changed the ledger exactly when the scan meets a batch that adds a header. -/
theorem validateAndApplyTransactions_failure (b : Block) (reward : Nat) (enforceReward : Bool)
    (maxSubsidy : Option Nat) :
    FailureForetold (Grown L) L (scanBlock C E P height L b)
      (validateAndApplyTransactions C E P height b reward enforceReward maxSubsidy) := by
  refine .check_bind fun coinbase _ => .refuse_bind <| .refuse_bind <|
    .bind Grown.mono (applyRegularTransactions_foretold _ _ _) (fun regular => ?_) fun regular => ?_
  · refine .bind Grown.mono (applyCoinbaseOutputs_foretold _ _ _ _) (fun paid => .last ?_) fun paid => ?_
    · intro e L' h
      simp only [lift_bind_error_iff, read_bind, update_bind, pure_apply, Prod.mk.injEq, reduceCtorEq, false_and,
        and_false, exists_false, or_false] at h
      rcases h with ⟨-, rfl⟩ | ⟨-, -, -, rfl⟩ <;> rfl
    · exact .bind (.lift _) fun _ => .bind (.lift _) fun _ => .bind .read fun _ =>
        .bind (.update fun L => headersGrow_commit L _ _) fun _ => .pure _
  · exact .bind (applyCoinbaseOutputs_grows _ _ _ _) fun paid => .bind (.lift _) fun _ => .bind (.lift _) fun _ =>
      .bind .read fun _ => .bind (.update fun L => headersGrow_commit L _ _) fun _ => .pure _

end

end IriumConsensus
