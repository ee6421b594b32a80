import Mathlib.Algebra.Order.BigOperators.Group.List
import Mathlib.Algebra.Order.Group.Nat
import IriumConsensus.Nodes
import IriumConsensus.Replay

namespace IriumConsensus

open ByteCodec Checks FinMaps

def outputSum (outs : List TxOutput) : Nat := (outs.map fun out => out.value.toNat).sum

def UtxoEntry.value (entry : UtxoEntry) : Nat := entry.output.value.toNat

def utxoTotal (utxos : FinMap OutPoint UtxoEntry) : Nat := total UtxoEntry.value utxos

/-- A block whose value the checks can see: nothing stands in the coinbase outputs that are passed
over, and no sum of outputs exceeds a signed 64-bit number. -/
structure ValueVisible (height : Nat) (b : Block) : Prop where
  carriers : ∀ coinbase ∈ b.transactions.head?, ∀ out ∈ coinbase.outputs,
    isLegacyCarrier height out → out.value = 0
  sums : ∀ tx ∈ b.transactions.tail, outputSum tx.outputs < 2 ^ 63

theorem wrapI64_of_nonneg {x : Int} (h0 : 0 ≤ x) (h : x < 2 ^ 63) : wrapI64 x = x := by
  unfold wrapI64
  rw [Int.bmod_def, Int.emod_eq_of_lt h0 (by omega)]
  split <;> omega

theorem outputSum_cons (out : TxOutput) (outs : List TxOutput) :
    outputSum (out :: outs) = out.value.toNat + outputSum outs := by simp [outputSum]

variable {t : Int} {outs : List TxOutput}

theorem sumWrapped_wraps (ht : wrapI64 t = t) (outs : List TxOutput) :
    sumWrapped t outs = wrapI64 (t + outputSum outs) := by
  induction outs generalizing t with
  | nil => simp [sumWrapped, outputSum, ht]
  | cons out outs ih =>
    have hwrap : wrapI64 (wrapI64 (t + wrapI64 out.value.toNat)) = wrapI64 (t + wrapI64 out.value.toNat) :=
      Int.bmod_bmod
    change sumWrapped (wrapI64 (t + wrapI64 out.value.toNat)) outs = _
    rw [ih hwrap, outputSum_cons, Nat.cast_add, ← add_assoc, wrapI64, wrapI64, wrapI64, wrapI64,
      Int.add_bmod_bmod, Int.bmod_add_bmod]

theorem sumWrapped_eq (h0 : 0 ≤ t) (h : t + outputSum outs < 2 ^ 63) :
    sumWrapped t outs = t + outputSum outs := by
  have ht : wrapI64 t = t := wrapI64_of_nonneg h0 (by omega)
  rw [sumWrapped_wraps ht, wrapI64_of_nonneg (by omega) h]

variable {C : Crypto} {E : NodeEnv} {P : ChainParams} {height : Nat} {L : Ledger} {acc acc' : TxAcc}
  {entries : List UtxoEntry} {txs : List Transaction}

def entrySum (entries : List UtxoEntry) : Nat := (entries.map UtxoEntry.value).sum

theorem outputSum_entries (entries : List UtxoEntry) : outputSum (entries.map UtxoEntry.output) = entrySum entries := by
  rw [outputSum, entrySum, List.map_map]
  rfl

theorem entrySum_append (entries entries' : List UtxoEntry) :
    entrySum (entries ++ entries') = entrySum entries + entrySum entries' := by simp [entrySum]

theorem TxAccepted.fee_exact {tx : Transaction} (h : TxAccepted C E P L height tx acc acc' entries)
    (hin : entrySum entries ≤ maxMoney) (hout : outputSum tx.outputs < 2 ^ 63)
    (hacc : 0 ≤ acc.fees ∧ acc.fees ≤ maxMoney) :
    acc'.fees + outputSum tx.outputs = acc.fees + entrySum entries := by
  have hmax : (maxMoney : Int) = 10000000000000000 := by decide
  have hi : sumWrapped 0 (entries.map UtxoEntry.output) = entrySum entries := by
    rw [sumWrapped_eq (le_refl 0) (by rw [outputSum_entries]; omega), outputSum_entries, Int.zero_add]
  have ho : outputTotal tx.outputs = outputSum tx.outputs := by
    have heq : sumWrapped 0 tx.outputs = 0 + outputSum tx.outputs := sumWrapped_eq (le_refl 0) (by omega)
    rw [Int.zero_add] at heq
    exact heq
  have hcov := h.covered
  have hfees := h.fees
  rw [hi, ho] at hcov hfees
  rw [wrapI64_of_nonneg (x := (entrySum entries : Int) - outputSum tx.outputs) (by omega) (by omega),
    wrapI64_of_nonneg (by omega) (by omega)] at hfees
  omega

theorem TxsAccepted.fees_exact (h : TxsAccepted C E P height L txs acc acc' entries)
    (hin : entrySum entries ≤ maxMoney) (hout : ∀ tx ∈ txs, outputSum tx.outputs < 2 ^ 63)
    (hacc : 0 ≤ acc.fees ∧ acc.fees ≤ maxMoney) :
    0 ≤ acc'.fees ∧ acc'.fees + (txs.map fun tx => outputSum tx.outputs).sum = acc.fees + entrySum entries := by
  induction h with
  | nil acc => simp [entrySum, hacc.1]
  | @cons tx txs acc acc' acc'' entries entries' L' hm ht rest ih =>
    rw [entrySum_append] at hin ⊢
    have hfirst := ht.fee_exact (by omega) (hout tx (by simp)) hacc
    obtain ⟨hnn, hrest⟩ := ih (by omega) (fun t h => hout t (by simp [h])) ht.feesBound
    refine ⟨hnn, ?_⟩
    rw [List.map_cons, List.sum_cons, Nat.cast_add, Nat.cast_add]
    omega

theorem utxoTotal_eraseAll {utxos : FinMap OutPoint UtxoEntry} {ops : List OutPoint} (hn : ops.Nodup)
    (h : List.Forall₂ (SpendableAt E utxos height) ops entries) :
    entrySum entries + utxoTotal (eraseAll utxos ops) = utxoTotal utxos := by
  have hlen := h.length_eq
  have hfst : (ops.zip entries).map Prod.fst = ops := List.map_fst_zip hlen.le
  have hsnd : (ops.zip entries).map Prod.snd = entries := List.map_snd_zip hlen.ge
  have hlook : ∀ kv ∈ ops.zip entries, utxos.lookup kv.1 = some kv.2 := by
    rintro ⟨op, entry⟩ hmem
    exact ((List.forall₂_iff_zip.mp h).2 hmem).known
  have hnodup : ((ops.zip entries).map Prod.fst).Nodup := by rwa [hfst]
  have htotal := total_eraseAll UtxoEntry.value hnodup hlook
  have hsum : ((ops.zip entries).map fun kv => kv.2.value).sum = entrySum entries := by
    rw [entrySum, ← hsnd, List.map_map, hsnd]
    rfl
  rw [hfst, hsum] at htotal
  exact htotal

theorem outputSum_coinbase (hbatch : ∀ out ∈ outs, out.batchChain.isSome → out.value = 0)
    (hcarrier : ∀ out ∈ outs, isLegacyCarrier height out → out.value = 0) :
    outputSum outs = countedValue height outs := by
  induction outs with
  | nil => rfl
  | cons out outs ih =>
    have hrest := ih (fun o ho => hbatch o (by simp [ho])) fun o ho => hcarrier o (by simp [ho])
    rw [outputSum_cons, hrest]
    by_cases hc : (out.batchChain.isNone && !isLegacyCarrier height out)
    · simp [countedValue, hc]
    · have hv : out.value = 0 := by
        rw [Bool.and_eq_true, not_and_or] at hc
        rcases hc with hc | hc
        · exact hbatch out (by simp) (by simpa [Option.isSome_iff_ne_none] using hc)
        · exact hcarrier out (by simp) (by simpa using hc)
      simp [countedValue, hc, hv]

theorem entries_value (tx : Transaction) (coinbase : Bool) :
    ((tx.entries C height coinbase).map fun kv => kv.2.value).sum = outputSum tx.outputs := by
  rw [outputSum]
  congr 1
  refine List.ext_getElem? fun i => ?_
  simp only [Transaction.entries, List.getElem?_map, List.getElem?_mapIdx, Option.map_map]
  rfl

theorem created_value_le (C : Crypto) (height : Nat) {b : Block} {coinbase : Transaction}
    (htxs : b.transactions = coinbase :: txs) :
    ((b.created C height).map fun kv => kv.2.value).sum ≤
      (txs.map fun tx => outputSum tx.outputs).sum + outputSum coinbase.outputs := by
  have hreg : ∀ txs : List Transaction, ((txs.flatMap fun tx => (tx.entries C height false).filter
      fun e => e.2.output.batchChain.isNone).map fun kv => kv.2.value).sum ≤
        (txs.map fun tx => outputSum tx.outputs).sum := by
    intro txs
    induction txs with
    | nil => simp
    | cons tx txs ih =>
      have hsub := ((List.filter_sublist (p := fun e : OutPoint × UtxoEntry => e.2.output.batchChain.isNone)
        (l := tx.entries C height false)).map fun kv => kv.2.value).sum_le_sum (by simp)
      rw [entries_value] at hsub
      rw [List.flatMap_cons, List.map_append, List.sum_append, List.map_cons, List.sum_cons]
      omega
  have hcb : (([coinbase].flatMap fun c => c.entries C height true).map fun kv => kv.2.value).sum =
      outputSum coinbase.outputs := by
    rw [List.flatMap_singleton, entries_value]
  rw [Block.created, htxs, List.tail_cons, List.head?_cons, Option.toList_some, List.map_append, List.sum_append, hcb]
  have := hreg txs
  omega

section

variable {b : Block} {below : List Block} {reward issued : Nat} {enforce : Bool} {m : Option Nat}
  {L' : Ledger} {undo : BlockUndo}

theorem counted_le_subsidy {fees counted : Nat} (h : enforce → counted ≤ reward + fees) :
    counted ≤ subsidyOf enforce reward fees counted + fees := by
  unfold subsidyOf
  cases enforce with
  | false =>
    simp only [Bool.false_eq_true, ↓reduceIte]
    omega
  | true =>
    have := h rfl
    simp only [↓reduceIte]
    omega

theorem BlockApplied.utxoTotal_le (ha : BlockApplied C E P below.length b reward enforce m L undo L')
    (hsub : Submap L.utxos (replay C below)) (hv : ValueVisible below.length b)
    (hmoney : utxoTotal (replay C below) ≤ maxMoney) :
    utxoTotal (replay C (b :: below)) ≤ utxoTotal (replay C below) + undo.subsidyCreated := by
  cases ha with
  | @mk coinbase txs acc entries updates Lr htxs _ hacc _ hchk _ hreward _ =>
    have hops : b.spentOutpoints = inputOutpoints txs := by rw [Block.spentOutpoints, htxs, List.tail_cons]
    have hn : (inputOutpoints txs).Nodup := by
      have hn := hacc.nodup List.nodup_nil
      rwa [hacc.seen_eq, List.nil_append] at hn
    have hspend : List.Forall₂ (SpendableAt E (replay C below) below.length) (inputOutpoints txs) entries :=
      hacc.spendable.imp fun op entry hs => ⟨hsub _ _ hs.known, hs.mature⟩
    have herase := utxoTotal_eraseAll hn hspend
    obtain ⟨hnn, hfees⟩ := hacc.fees_exact (by omega)
      (fun tx htx => hv.sums tx (by rw [htxs, List.tail_cons]; exact htx)) ⟨le_refl _, by simp⟩
    have hcreated := created_value_le C below.length htxs
    have hcoinbase := outputSum_coinbase hchk.batches (hv.carriers coinbase (by rw [htxs]; rfl))
    have hsubsidy := counted_le_subsidy hreward
    have hinsert := total_insertAll_le UtxoEntry.value (eraseAll (replay C below) (inputOutpoints txs))
      (b.created C below.length)
    rw [replay, hops]
    unfold utxoTotal at *
    simp only [Int.zero_add] at hfees ⊢
    omega

theorem Mined.utxoTotal_le (h : Mined C E ValueVisible below issued) (hi : issued ≤ maxMoney) :
    utxoTotal (replay C below) ≤ issued := by
  induction h with
  | nil => exact le_of_eq (total_empty _)
  | @cons b below issued reward P L L' undo enforce m hbelow hb hsub ha ih =>
    have hle := ih (by omega)
    have hblock := ha.utxoTotal_le hsub hb (by omega)
    omega

namespace ChainState

variable {s : ChainState}

/-- When all value is visible to the checks, the unspent outputs hold no more than was issued, and
never more than the limit was issued. -/
theorem utxos_within_issued (hs : ReachableBy C E ValueVisible s) :
    utxoTotal s.utxos ≤ s.issued ∧ s.issued ≤ maxMoney := by
  have hi := hs.wellFormed.issued
  have hr := hs.replays
  have hle := hr.utxos.total_le UtxoEntry.value
  have hm := hr.rewinds.inv.utxoTotal_le hi
  exact ⟨hle.trans hm, hi⟩

def carrierCoinbase (value : UInt64) : Transaction :=
  coinbaseTx [] [⟨5000000000, p2pkhScript (ByteVec.zero 20)⟩, ⟨value, [dogeCarrierTag]⟩]

def emptyCarrierBlock : Block :=
  devnetBlock lockedGenesisHash (beVec 32 0x153e882c885e32a2a0fc753a5582a0461d6c45757334c439001a9190b4e41f8b)
    1767583931 3 [carrierCoinbase 0]

def fullCarrierBlock : Block :=
  devnetBlock lockedGenesisHash (beVec 32 0xae0c57f308dd5f23f27147e9e92640b8541a4053bd19f4e1dca3903d646f7b87)
    1767583931 1 [carrierCoinbase 10000000000000000]

theorem empty_carrier_within_issued :
    ∃ s, ReachableBy shaCrypto devnetNode ValueVisible s ∧ s.chain = [lockedGenesis, emptyCarrierBlock] ∧
      utxoTotal s.utxos ≤ s.issued ∧ s.issued ≤ maxMoney := by
  obtain ⟨s, hs, hchain⟩ := exists_of_any (runOf shaCrypto devnetNode quietAmbient devnetParams [emptyCarrierBlock])
    (fun s => s.chain = [lockedGenesis, emptyCarrierBlock]) (by decide +kernel)
  have hvisible : ∀ h, ∀ b ∈ [lockedGenesis, emptyCarrierBlock], ValueVisible h b := by
    intro h b hb
    refine ⟨?_, ?_⟩
    · have hzero : ∀ b ∈ [lockedGenesis, emptyCarrierBlock], ∀ coinbase ∈ b.transactions.head?,
          ∀ out ∈ coinbase.outputs, out.tag = some dogeCarrierTag → out.value = 0 := by decide
      intro coinbase hc out ho hl
      rw [isLegacyCarrier, decide_eq_true_eq] at hl
      exact hzero b hb coinbase hc out ho hl.1
    · have hnone : ∀ b ∈ [lockedGenesis, emptyCarrierBlock], b.transactions.tail = [] := by decide
      simp [hnone b hb]
  have hreach := runOf_reachableBy hvisible hs
  exact ⟨s, hreach, hchain, utxos_within_issued hreach⟩

theorem carrier_output_exceeds_issued :
    ∃ s, Reachable shaCrypto devnetNode s ∧ s.issued = 350005000000000 ∧
      utxoTotal s.utxos = 10350005000000000 := by
  exact exists_reachable_of_runOf quietAmbient devnetParams [fullCarrierBlock]
    (fun s => s.issued = 350005000000000 ∧ utxoTotal s.utxos = 10350005000000000) (by decide +kernel)

end ChainState

end

end IriumConsensus
