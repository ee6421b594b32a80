import IriumConsensus.RelayUndo
import IriumConsensus.TxRules

namespace IriumConsensus

open Checks FinMaps Stateful

variable {C : Crypto} {E : NodeEnv} {P : ChainParams} {height : Nat} {blockTime : UInt32} {chain chain' : ForeignChain}
  {r : Relay}

/-- What the header batches of a block may do to a ledger: at most one step of each relay. -/
structure RelaysMoved (L : Ledger) (updates : RelayUpdates) (L' : Ledger) : Prop where
  utxos : L'.utxos = L.utxos
  btcClaimed : L'.btc.claimed = L.btc.claimed
  ltcClaimed : L'.ltc.claimed = L.ltc.claimed
  unmoved : ∀ chain, updates.get chain = none → L'.relay chain = L.relay chain
  moved : ∀ chain u, updates.get chain = some u → RelayStep (L.relay chain) u (L'.relay chain)

theorem RelaysMoved.refl (L : Ledger) : RelaysMoved L ⟨none, none⟩ L :=
  ⟨rfl, rfl, rfl, fun _ _ => rfl, fun chain u h => by cases chain <;> simp [RelayUpdates.get] at h⟩

theorem applyHeaderBatch_step {headers : List ForeignHeader} {applied : RelayUpdate × Relay}
    (h : P.applyHeaderBatch C chain headers blockTime r = .ok applied) :
    RelayStep r applied.1 applied.2 := by
  cases chain with
  | btc => exact applyBtcHeaderBatch_step h
  | ltc => exact applyLtcHeaderBatch_step h

@[simp] theorem RelayUpdates.get_set_self (u : RelayUpdates) (chain : ForeignChain) (r : RelayUpdate) :
    (u.set chain r).get chain = some r := by cases chain <;> rfl

theorem RelayUpdates.get_set_of_ne (u : RelayUpdates) (r : RelayUpdate) (h : chain' ≠ chain) :
    (u.set chain r).get chain' = u.get chain' := by
  cases chain <;> cases chain' <;> first | rfl | exact absurd rfl h

@[simp] theorem Ledger.relay_setRelay_self (L : Ledger) (chain : ForeignChain) (r : Relay) :
    (L.setRelay chain r).relay chain = r := by cases chain <;> rfl

theorem Ledger.relay_setRelay_of_ne (L : Ledger) (r : Relay) (h : chain' ≠ chain) :
    (L.setRelay chain r).relay chain' = L.relay chain' := by
  cases chain <;> cases chain' <;> first | rfl | exact absurd rfl h

theorem RelaysMoved.step {L L' : Ledger} {updates : RelayUpdates} {u : RelayUpdate} (hm : RelaysMoved L updates L')
    (hu : updates.get chain = none) (hr : RelayStep (L'.relay chain) u r) :
    RelaysMoved L (updates.set chain u) (L'.setRelay chain r) where
  utxos := by cases chain <;> exact hm.utxos
  btcClaimed := by cases chain <;> exact hm.btcClaimed
  ltcClaimed := by cases chain <;> exact hm.ltcClaimed
  unmoved := by
    intro chain' h
    by_cases hc : chain' = chain
    · simp [hc] at h
    · rw [RelayUpdates.get_set_of_ne _ _ hc] at h
      rw [Ledger.relay_setRelay_of_ne _ _ hc, hm.unmoved chain' h]
  moved := by
    intro chain' v h
    by_cases hc : chain' = chain
    · subst hc
      rw [RelayUpdates.get_set_self, Option.some.injEq] at h
      rw [Ledger.relay_setRelay_self, ← h, ← hm.unmoved chain' hu]
      exact hr
    · rw [RelayUpdates.get_set_of_ne _ _ hc] at h
      rw [Ledger.relay_setRelay_of_ne _ _ hc]
      exact hm.moved chain' v h

section

variable {L : Ledger} {out : TxOutput} {rest : List TxOutput}

def SomeMoved (L L' : Ledger) : Prop := ∃ updates, RelaysMoved L updates L'

theorem RelaysMoved.someMoved {L L' : Ledger} {updates : RelayUpdates} (h : RelaysMoved L updates L') :
    SomeMoved L L' := ⟨updates, h⟩

theorem applyBatchOutput_triple (chain : ForeignChain) (out : TxOutput) (updates : RelayUpdates) :
    Triple (RelaysMoved L updates) (applyBatchOutput C P height blockTime chain out updates) (RelaysMoved L)
      (SomeMoved L) := by
  have hF : ∀ L', RelaysMoved L updates L' → SomeMoved L L' := fun _ h => h.someMoved
  refine .lift_bind hF fun _ _ => .lift_bind hF fun _ hnone => .lift_bind hF fun headers _ =>
    .read_bind fun L' hm => .lift_bind (by rintro _ rfl; exact hm.someMoved) fun applied ha =>
      .update_bind (M := RelaysMoved L (updates.set chain applied.1)) ?_ (.pure fun _ h => h)
  rintro _ rfl
  have hu : updates.get chain = none := by simpa using hnone
  exact hm.step hu (applyHeaderBatch_step (mapError_eq_ok.mp ha))

theorem applyBatchOutputs_triple (outs : List TxOutput) (updates : RelayUpdates) :
    Triple (RelaysMoved L updates) (applyBatchOutputs C P height blockTime outs updates) (RelaysMoved L)
      (SomeMoved L) := by
  induction outs generalizing updates with
  | nil => exact .pure fun _ h => h
  | cons out rest ih =>
    unfold applyBatchOutputs
    split
    next chain _ => exact .bind (applyBatchOutput_triple chain out updates) ih
    next => exact ih updates

/-- The transactions after the coinbase, with the entries they spend. Each was checked against a
ledger with the same outputs. -/
inductive TxsAccepted (C : Crypto) (E : NodeEnv) (P : ChainParams) (height : Nat) (L : Ledger) :
    List Transaction → TxAcc → TxAcc → List UtxoEntry → Prop
  | nil (acc : TxAcc) : TxsAccepted C E P height L [] acc acc []
  | cons {tx : Transaction} {txs : List Transaction} {acc acc' acc'' : TxAcc} {entries entries' : List UtxoEntry}
      {L' : Ledger} (hm : SomeMoved L L') (ht : TxAccepted C E P L' height tx acc acc' entries)
      (rest : TxsAccepted C E P height L txs acc' acc'' entries') :
      TxsAccepted C E P height L (tx :: txs) acc acc'' (entries ++ entries')

/-- What holds of no transactions, and with one more that was checked against a moved ledger, holds of a run. -/
theorem applyRegularTransactions_induct {R : List Transaction → TxAcc → TxAcc → Prop} (hnil : ∀ acc, R [] acc acc)
    (hcons : ∀ L' tx txs acc acc' acc'', SomeMoved L L' → validateTransactionInternal C E P L' tx height acc = .ok acc' →
      R txs acc' acc'' → R (tx :: txs) acc acc'')
    (txs : List Transaction) (acc : TxAcc) (updates : RelayUpdates) :
    Triple (RelaysMoved L updates) (applyRegularTransactions C E P height blockTime txs acc updates)
      (fun result L' => RelaysMoved L result.2 L' ∧ R txs acc result.1) (SomeMoved L) := by
  induction txs generalizing acc updates with
  | nil => exact .pure fun _ h => ⟨h, hnil acc⟩
  | cons tx rest ih =>
    refine .read_bind fun L' hm => .lift_bind (by rintro _ rfl; exact hm.someMoved) fun acc' ha => ?_
    refine .bind ((applyBatchOutputs_triple tx.outputs updates).weaken_pre (by rintro _ rfl; exact hm))
      fun updates' => (ih acc' updates').weaken_post ?_
    rintro result L'' ⟨hmoved, hrest⟩
    exact ⟨hmoved, hcons L' tx rest acc acc' result.1 hm.someMoved ha hrest⟩

theorem applyRegularTransactions_triple (txs : List Transaction) (acc : TxAcc) (updates : RelayUpdates) :
    Triple (RelaysMoved L updates) (applyRegularTransactions C E P height blockTime txs acc updates)
      (fun result L' => RelaysMoved L result.2 L' ∧ ∃ entries, TxsAccepted C E P height L txs acc result.1 entries)
      (SomeMoved L) := by
  refine applyRegularTransactions_induct
    (R := fun txs acc acc' => ∃ entries, TxsAccepted C E P height L txs acc acc' entries)
    (fun acc => ⟨[], .nil acc⟩) ?_ txs acc updates
  rintro L' tx txs acc acc' acc'' hm ha ⟨entries', hrest⟩
  obtain ⟨entries, ht⟩ := validateTransactionInternal_ok ha
  exact ⟨_, .cons hm ht hrest⟩

def countedValue (height : Nat) (outs : List TxOutput) : Nat :=
  ((outs.filter fun out => out.batchChain.isNone && !isLegacyCarrier height out).map
    fun out => out.value.toNat).sum

structure CoinbaseChecked (C : Crypto) (P : ChainParams) (height : Nat) (outs : List TxOutput) : Prop where
  batches : ∀ out ∈ outs, out.batchChain.isSome → out.value = 0
  others : ∀ out ∈ outs, out.batchChain = none → isLegacyCarrier height out = false →
    validateOutput C P out height = .ok ()

theorem applyCoinbaseBatch_triple (chain : ForeignChain) (out : TxOutput) (seen : List ForeignChain)
    (updates : RelayUpdates) :
    Triple (RelaysMoved L updates) (applyCoinbaseBatch C P height blockTime chain out seen updates)
      (fun updates' L' => RelaysMoved L updates' L' ∧ out.value = 0) (SomeMoved L) := by
  have hF : ∀ L', RelaysMoved L updates L' → SomeMoved L L' := fun _ h => h.someMoved
  refine .lift_bind hF fun _ _ => .lift_bind hF fun _ _ => .lift_bind hF fun _ hvalue => .lift_bind hF fun _ _ =>
    .lift_bind hF fun _ hnone => .lift_bind hF fun headers _ => .read_bind fun L' hm => ?_
  have hu : updates.get chain = none := by simpa using hnone
  have hv : out.value = 0 := by simpa using hvalue
  split
  next applied ha =>
    refine .update_bind (M := RelaysMoved L (updates.set chain applied.1)) ?_ (.pure fun _ h => ⟨h, hv⟩)
    rintro _ rfl
    exact hm.step hu (applyHeaderBatch_step ha)
  next =>
    split
    next => exact .pure fun _ h => ⟨h ▸ hm, hv⟩
    next => exact .fail (fun _ h => h ▸ hm.someMoved) _

theorem CoinbaseChecked.cons_batch (hb : out.batchChain.isSome) (hv : out.value = 0)
    (h : CoinbaseChecked C P height rest) : CoinbaseChecked C P height (out :: rest) where
  batches := by simpa [hv] using h.batches
  others := by
    intro o ho hn
    rcases List.mem_cons.mp ho with rfl | ho
    · simp [hn] at hb
    · exact h.others o ho hn

theorem CoinbaseChecked.cons_other (hb : out.batchChain = none)
    (hv : isLegacyCarrier height out = false → validateOutput C P out height = .ok ())
    (h : CoinbaseChecked C P height rest) : CoinbaseChecked C P height (out :: rest) where
  batches := by
    intro o ho hs
    rcases List.mem_cons.mp ho with rfl | ho
    · simp [hb] at hs
    · exact h.batches o ho hs
  others := by
    intro o ho hn
    rcases List.mem_cons.mp ho with rfl | ho
    · exact hv
    · exact h.others o ho hn

theorem applyCoinbaseOutputs_triple (outs : List TxOutput) (seen : List ForeignChain) (updates : RelayUpdates)
    (total : Nat) (ht : total ≤ maxMoney) :
    Triple (RelaysMoved L updates) (applyCoinbaseOutputs C P height blockTime outs seen updates total)
      (fun result L' => RelaysMoved L result.1 L' ∧ result.2 = total + countedValue height outs ∧
        result.2 ≤ maxMoney ∧ CoinbaseChecked C P height outs)
      (SomeMoved L) := by
  have hF : ∀ updates L', RelaysMoved L updates L' → SomeMoved L L' := fun _ _ h => h.someMoved
  induction outs generalizing seen updates total with
  | nil => exact .pure fun _ h => ⟨h, rfl, ht, ⟨by simp, by simp⟩⟩
  | cons out rest ih =>
    unfold applyCoinbaseOutputs
    split
    next chain hc =>
      -- a header batch is worth nothing and is not counted
      refine .bind (applyCoinbaseBatch_triple chain out seen updates) fun updates' => .assume fun hv =>
        (ih (chain :: seen) updates' total ht).weaken_post ?_
      rintro result L' ⟨hm, hsum, hle, hchk⟩
      exact ⟨hm, by simpa [countedValue, hc] using hsum, hle, hchk.cons_batch (by simp [hc]) hv⟩
    next hc =>
      split
      next hl =>
        refine (ih seen updates total ht).weaken_post ?_
        rintro result L' ⟨hm, hsum, hle, hchk⟩
        exact ⟨hm, by simpa [countedValue, hc, hl] using hsum, hle, hchk.cons_other hc (by simp [hl])⟩
      next hl =>
        refine .lift_bind (hF updates) fun _ hv => .lift_bind (hF updates) fun _ hle => ?_
        simp only [failIf_eq_ok, not_lt] at hle
        refine (ih seen updates (total + out.value.toNat) hle).weaken_post ?_
        rintro result L' ⟨hm, hsum, hle, hchk⟩
        refine ⟨hm, ?_, hle, hchk.cons_other hc fun _ => hv⟩
        simp only [countedValue, List.filter_cons, hc, hl] at hsum ⊢
        simp only [hsum, Option.isNone_none, Bool.not_false, Bool.and_self, ↓reduceIte, List.map_cons,
          List.sum_cons]
        omega

theorem applyCoinbaseOutputs_plain {outs : List TxOutput} (houts : ∀ out ∈ outs, out.batchChain = none ∧
      (isLegacyCarrier height out = false → validateOutput C P out height = .ok ()))
    (seen : List ForeignChain) (updates : RelayUpdates) (total : Nat) (L : Ledger)
    (h : total + countedValue height outs ≤ maxMoney) :
    applyCoinbaseOutputs C P height blockTime outs seen updates total L =
      (.ok (updates, total + countedValue height outs), L) := by
  induction outs generalizing total with
  | nil => rfl
  | cons out rest ih =>
    obtain ⟨⟨hb, hv⟩, hrest⟩ := List.forall_mem_cons.mp houts
    rw [applyCoinbaseOutputs, hb]
    cases hl : isLegacyCarrier height out with
    | true =>
      have hcount : countedValue height (out :: rest) = countedValue height rest := by simp [countedValue, hl]
      rw [hcount] at h ⊢
      simpa using ih hrest total h
    | false =>
      have hcount : countedValue height (out :: rest) = out.value.toNat + countedValue height rest := by
        simp [countedValue, hb, hl]
      rw [hcount] at h ⊢
      have hsum : failIf (maxMoney < total + out.value.toNat) "Coinbase outputs overflow" = .ok () := by
        rw [failIf_eq_ok]
        omega
      have htail := ih hrest (total + out.value.toNat) (by omega)
      rw [Nat.add_assoc] at htail
      simp only [Bool.false_eq_true, ↓reduceIte, bind_apply, lift_apply, hv hl, hsum, htail]

/-- Everything that applying the transactions of a block does to a ledger when it succeeds. -/
inductive BlockApplied (C : Crypto) (E : NodeEnv) (P : ChainParams) (height : Nat) (b : Block)
    (reward : Nat) (enforceReward : Bool) (maxSubsidy : Option Nat) (L : Ledger) : BlockUndo → Ledger → Prop
  | mk {coinbase : Transaction} {txs : List Transaction} {acc : TxAcc} {entries : List UtxoEntry}
      {updates : RelayUpdates} {Lr : Ledger}
      (htxs : b.transactions = coinbase :: txs) (hcoinbase : isCoinbase coinbase)
      (haccepted : TxsAccepted C E P height L txs ⟨[], 0, ⟨[], []⟩⟩ acc entries)
      (hmoved : RelaysMoved L updates Lr)
      (hchecked : CoinbaseChecked C P height coinbase.outputs)
      (hbound : countedValue height coinbase.outputs ≤ maxMoney)
      (hreward : enforceReward → countedValue height coinbase.outputs ≤ reward + acc.fees.toNat)
      (hsubsidy : ∀ m, maxSubsidy = some m →
        subsidyOf enforceReward reward acc.fees.toNat (countedValue height coinbase.outputs) ≤ m) :
      BlockApplied C E P height b reward enforceReward maxSubsidy L
        { spent := Lr.spentBy acc.seen
          created := (b.created C height).map Prod.fst
          subsidyCreated := subsidyOf enforceReward reward acc.fees.toNat (countedValue height coinbase.outputs)
          btcRelayUpdate := updates.btc
          ltcRelayUpdate := updates.ltc
          claimedAdded := acc.consumed }
        (Lr.commit acc (b.created C height))

theorem validateAndApplyTransactions_triple (b : Block) (reward : Nat) (enforceReward : Bool)
    (maxSubsidy : Option Nat) :
    Triple (· = L) (validateAndApplyTransactions C E P height b reward enforceReward maxSubsidy)
      (BlockApplied C E P height b reward enforceReward maxSubsidy L) (SomeMoved L) := by
  have hF : ∀ L', L' = L → SomeMoved L L' := by rintro _ rfl; exact (RelaysMoved.refl _).someMoved
  refine .lift_bind hF fun coinbase hhead => .lift_bind hF fun _ hcoin => .lift_bind hF fun _ houts => ?_
  have htxs : b.transactions = coinbase :: b.transactions.tail := by
    rw [orFail_eq_ok, List.head?_eq_some_iff] at hhead
    obtain ⟨rest, hrest⟩ := hhead
    rw [hrest, List.tail_cons]
  refine .bind ((applyRegularTransactions_triple b.transactions.tail _ ⟨none, none⟩).weaken_pre
    (by rintro _ rfl; exact .refl _)) fun regular => .assume fun ⟨entries, hacc⟩ => ?_
  refine .bind (applyCoinbaseOutputs_triple coinbase.outputs [] regular.2 0 (Nat.zero_le _)) fun paid => ?_
  have hF' : ∀ L', RelaysMoved L paid.1 L' → SomeMoved L L' := fun _ h => h.someMoved
  refine .assume fun ⟨hsum, hle, hchk⟩ => .lift_bind hF' fun _ hreward => .lift_bind hF' fun _ hsubsidy =>
    .read_bind fun Lr hm => .update_bind
      (M := (· = Lr.commit regular.1 (b.created C height))) (by rintro _ rfl; rfl) (.pure ?_)
  rintro _ rfl
  rw [Nat.zero_add] at hsum
  simp only [failIf_eq_ok, not_and, not_lt, Bool.not_eq_true, hsum] at hreward hsubsidy
  rw [hsum] at hle ⊢
  refine .mk htxs (by simpa using hcoin) hacc hm hchk hle hreward ?_
  rintro m rfl
  simpa using hsubsidy

end

def inputOutpoints (txs : List Transaction) : List OutPoint :=
  txs.flatMap fun tx => tx.inputs.map TxInput.outpoint

def Block.spentOutpoints (b : Block) : List OutPoint := inputOutpoints b.transactions.tail

section

variable {L : Ledger} {txs : List Transaction} {acc acc' : TxAcc} {entries : List UtxoEntry}

theorem TxsAccepted.seen_eq (h : TxsAccepted C E P height L txs acc acc' entries) :
    acc'.seen = acc.seen ++ inputOutpoints txs := by
  induction h with
  | nil acc => simp [inputOutpoints]
  | cons hm ht rest ih => rw [ih, ht.seen, List.append_assoc]; rfl

theorem TxsAccepted.nodup (h : TxsAccepted C E P height L txs acc acc' entries) (hn : acc.seen.Nodup) :
    acc'.seen.Nodup := by
  induction h with
  | nil acc => exact hn
  | cons hm ht rest ih => exact ih (ht.nodup hn)

theorem TxsAccepted.unclaimed (h : TxsAccepted C E P height L txs acc acc' entries)
    (hc : acc.consumed.Unclaimed L.view) : acc'.consumed.Unclaimed L.view := by
  induction h with
  | nil acc => exact hc
  | @cons tx txs acc acc' acc'' entries entries' L' hm ht rest ih =>
    obtain ⟨updates, hm⟩ := hm
    have hiff : ∀ c : Consumed, c.Unclaimed L'.view ↔ c.Unclaimed L.view := fun c =>
      ⟨fun h => ⟨hm.btcClaimed ▸ h.btc, hm.ltcClaimed ▸ h.ltc⟩,
        fun h => ⟨hm.btcClaimed.symm ▸ h.btc, hm.ltcClaimed.symm ▸ h.ltc⟩⟩
    exact ih ((hiff _).mp (ht.unclaimed ((hiff _).mpr hc)))

theorem forall₂_left_mem {α β : Type} {R : α → β → Prop} {xs : List α} {ys : List β} (h : List.Forall₂ R xs ys)
    {x : α} (hx : x ∈ xs) : ∃ y ∈ ys, R x y := by
  induction h with
  | nil => simp at hx
  | @cons a b as bs hr _ ih =>
    rcases List.mem_cons.mp hx with rfl | hx
    · exact ⟨b, by simp, hr⟩
    · obtain ⟨y, hy, hr⟩ := ih hx
      exact ⟨y, by simp [hy], hr⟩

/-- An outpoint stands for an entry that may be spent at a height. -/
structure SpendableAt (E : NodeEnv) (utxos : FinMap OutPoint UtxoEntry) (height : Nat) (op : OutPoint)
    (entry : UtxoEntry) : Prop where
  known : utxos.lookup op = some entry
  mature : entry.isCoinbase → coinbaseMaturity E ≤ height - entry.height

theorem InputsSpend.spendable {L' : Ledger} {tx : Transaction} {i : Nat} {inputs : List TxInput}
    (h : InputsSpend C E P L' height tx i inputs entries) (hu : L'.utxos = L.utxos) :
    List.Forall₂ (SpendableAt E L.utxos height) (inputs.map TxInput.outpoint) entries := by
  induction h with
  | nil i => exact .nil
  | cons hs ha rest ih => exact .cons ⟨hu ▸ hs.known, hs.mature⟩ ih

theorem TxsAccepted.spendable (h : TxsAccepted C E P height L txs acc acc' entries) :
    List.Forall₂ (SpendableAt E L.utxos height) (inputOutpoints txs) entries := by
  induction h with
  | nil acc => exact .nil
  | cons hm ht rest ih =>
    obtain ⟨updates, hm⟩ := hm
    exact List.rel_append (ht.spends.spendable hm.utxos) ih

end

end IriumConsensus
