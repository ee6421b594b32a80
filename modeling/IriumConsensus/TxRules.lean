import IriumConsensus.ApplyTransactions
import IriumConsensus.SpendAuth

namespace IriumConsensus

open Checks

variable {C : Crypto} {E : NodeEnv} {P : ChainParams} {L : Ledger} {height : Nat} {tx : Transaction}
  {acc acc' : TxAcc}

variable {i : Nat} {txin : TxInput} {consumed : Consumed} {seen : List OutPoint} {inputs : List TxInput} {total : Int}
  {result : List OutPoint × Consumed × Int}

def sumWrapped (total : Int) (outputs : List TxOutput) : Int :=
  outputs.foldl (fun total out => wrapI64 (total + wrapI64 out.value.toNat)) total

structure Spendable (E : NodeEnv) (L : Ledger) (height : Nat) (txin : TxInput) (entry : UtxoEntry) : Prop where
  known : L.utxos.lookup txin.outpoint = some entry
  mature : entry.isCoinbase → coinbaseMaturity E ≤ height - entry.height

/-- An accepted input takes one complete branch of the output it spends. -/
def Authorized (C : Crypto) (P : ChainParams) (L : Ledger) (height : Nat) (tx : Transaction) (i : Nat)
    (txin : TxInput) (entry : UtxoEntry) : Prop :=
  ∃ consumed, SpendBranch C tx i entry.output.scriptPubkey txin entry.output.value height (P.spendFlagsAt height)
    L.view consumed (parseOutputEncumbrance entry.output.scriptPubkey)

theorem checkInput_ok
    {found : Consumed × UtxoEntry} (h : checkInput C E P L height tx i txin seen consumed = .ok found) :
    txin.outpoint ∉ seen ∧ Spendable E L height txin found.2 ∧ Authorized C P L height tx i txin found.2 ∧
      (consumed.Unclaimed L.view → found.1.Unclaimed L.view) := by
  simp only [checkInput, bind_eq_ok, exists_unit, failIf_eq_ok, orFail_eq_ok, pure_eq_ok, not_and, not_lt] at h
  obtain ⟨hseen, entry, hentry, hmature, consumed', hv, rfl⟩ := h
  exact ⟨hseen, ⟨hentry, hmature⟩, ⟨consumed, verifyTransactionSignature_branch hv⟩,
    fun hc => verifyTransactionSignature_unclaimed hc hv⟩

inductive InputsSpend (C : Crypto) (E : NodeEnv) (P : ChainParams) (L : Ledger) (height : Nat)
    (tx : Transaction) : Nat → List TxInput → List UtxoEntry → Prop
  | nil (i : Nat) : InputsSpend C E P L height tx i [] []
  | cons {i : Nat} {txin : TxInput} {entry : UtxoEntry} {inputs : List TxInput} {entries : List UtxoEntry}
      (hs : Spendable E L height txin entry) (ha : Authorized C P L height tx i txin entry)
      (rest : InputsSpend C E P L height tx (i + 1) inputs entries) :
      InputsSpend C E P L height tx i (txin :: inputs) (entry :: entries)

theorem checkInputs_ok (h : checkInputs C E P L height tx i inputs seen consumed total = .ok result) :
    ∃ entries, InputsSpend C E P L height tx i inputs entries ∧
      result.1 = seen ++ inputs.map TxInput.outpoint ∧ (seen.Nodup → result.1.Nodup) ∧
      (consumed.Unclaimed L.view → result.2.1.Unclaimed L.view) ∧
      result.2.2 = sumWrapped total (entries.map UtxoEntry.output) := by
  induction inputs generalizing i seen consumed total with
  | nil =>
    simp only [checkInputs, Except.ok.injEq] at h
    subst h
    exact ⟨[], .nil i, by simp, id, id, rfl⟩
  | cons txin inputs ih =>
    simp only [checkInputs, bind_eq_ok] at h
    obtain ⟨found, hfound, h⟩ := h
    obtain ⟨hseen, hs, ha, hc⟩ := checkInput_ok hfound
    have hsnoc : seen.Nodup → (seen ++ [txin.outpoint]).Nodup := fun hn => by
      rw [← List.concat_eq_append]
      exact hn.concat hseen
    obtain ⟨entries, hin, hres, hnd, hunc, htot⟩ := ih h
    exact ⟨found.2 :: entries, .cons hs ha hin, by simp [hres], fun hn => hnd (hsnoc hn),
      fun hu => hunc (hc hu), htot⟩

theorem checkInputs_verified (h : checkInputs C E P L height tx i inputs seen consumed total = .ok result)
    (hmem : txin ∈ inputs) :
    ∃ entry j c c', L.utxos.lookup txin.outpoint = some entry ∧
      verifyTransactionSignature C tx j txin entry.output height (P.spendFlagsAt height) L.view c = some c' := by
  induction inputs generalizing i seen consumed total with
  | nil => simp at hmem
  | cons first inputs ih =>
    simp only [checkInputs, bind_eq_ok] at h
    obtain ⟨found, hfound, h⟩ := h
    rcases List.mem_cons.mp hmem with rfl | hrest
    · simp only [checkInput, bind_eq_ok, exists_unit, failIf_eq_ok, orFail_eq_ok, pure_eq_ok] at hfound
      obtain ⟨-, entry, hentry, -, c', hv, rfl⟩ := hfound
      exact ⟨entry, i, consumed, c', hentry, hv⟩
    · exact ih h hrest

/-- All that `validate_transaction_internal` has checked of an accepted transaction. -/
structure TxAccepted (C : Crypto) (E : NodeEnv) (P : ChainParams) (L : Ledger) (height : Nat) (tx : Transaction)
    (acc acc' : TxAcc) (entries : List UtxoEntry) : Prop where
  spends : InputsSpend C E P L height tx 0 tx.inputs entries
  seen : acc'.seen = acc.seen ++ tx.inputs.map TxInput.outpoint
  nodup : acc.seen.Nodup → acc'.seen.Nodup
  unclaimed : acc.consumed.Unclaimed L.view → acc'.consumed.Unclaimed L.view
  outputs : ∀ out ∈ tx.outputs, validateOutput C P out height = .ok ()
  covered : outputTotal tx.outputs ≤ sumWrapped 0 (entries.map UtxoEntry.output)
  fees : acc'.fees =
    wrapI64 (acc.fees + wrapI64 (sumWrapped 0 (entries.map UtxoEntry.output) - outputTotal tx.outputs))
  feesBound : 0 ≤ acc'.fees ∧ acc'.fees ≤ maxMoney

theorem validateTransactionInternal_ok
    (h : validateTransactionInternal C E P L tx height acc = .ok acc') :
    ∃ entries, TxAccepted C E P L height tx acc acc' entries := by
  simp only [validateTransactionInternal, bind_eq_ok, exists_unit, failIf_eq_ok, checkAll_eq_ok, pure_eq_ok,
    not_lt, not_or] at h
  obtain ⟨spent, hspent, houts, hcov, hfees, rfl⟩ := h
  obtain ⟨entries, hin, hseen, hnd, hunc, htot⟩ := checkInputs_ok hspent
  rw [htot] at hcov hfees
  exact ⟨entries, hin, hseen, hnd, hunc, houts, hcov, by rw [htot], by rw [htot]; exact hfees⟩

theorem validateTransactionInternal_verified
    (h : validateTransactionInternal C E P L tx height acc = .ok acc') (hmem : txin ∈ tx.inputs) :
    ∃ entry j c c', L.utxos.lookup txin.outpoint = some entry ∧
      verifyTransactionSignature C tx j txin entry.output height (P.spendFlagsAt height) L.view c = some c' := by
  simp only [validateTransactionInternal, bind_eq_ok] at h
  obtain ⟨spent, hspent, -⟩ := h
  exact checkInputs_verified hspent hmem

end IriumConsensus
