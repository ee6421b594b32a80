import IriumConsensus.Nodes
import IriumConsensus.TxRules

namespace IriumConsensus

open ByteCodec FinMaps

def OutputEncumbrance.usable (flags : SpendFlags) : OutputEncumbrance → Bool
  | .p2pkh _ => true
  | .htlcV1 _ => flags.htlcv1
  | .mpsoV1 _ => flags.mpsov1
  | .htlcBtcSwapV1 _ => flags.htlcBtcSwapV1
  | .htlcLtcSwapV1 _ => flags.htlcLtcSwapV1
  | .swapOrder _ => flags.swapOrderV1
  | .ltcSwapOrder _ => flags.ltcSwapOrderV1
  | .unknown => false

variable {C : Crypto} {E : NodeEnv} {P : ChainParams} {L : Ledger} {height : Nat} {tx : Transaction}
  {acc acc' : TxAcc} {i : Nat} {txin : TxInput}

theorem SpendBranch.usable {script : Bytes} {value : UInt64} {flags : SpendFlags} {view : ConsensusView}
    {consumed : Consumed} {enc : OutputEncumbrance}
    (h : SpendBranch C tx i script txin value height flags view consumed enc) : enc.usable flags := by
  cases h <;> first | rfl | assumption

theorem InputsSpend.at {j : Nat} {inputs : List TxInput} {entries : List UtxoEntry}
    (h : InputsSpend C E P L height tx j inputs entries) (hi : inputs[i]? = some txin) :
    ∃ entry, Spendable E L height txin entry ∧ Authorized C P L height tx (j + i) txin entry := by
  induction h generalizing i with
  | nil j => simp at hi
  | @cons j first entry inputs entries hs ha rest ih =>
    cases i with
    | zero =>
      rw [List.getElem?_cons_zero, Option.some.injEq] at hi
      subst hi
      exact ⟨entry, hs, ha⟩
    | succ i =>
      rw [List.getElem?_cons_succ] at hi
      obtain ⟨entry, hs, ha⟩ := ih hi
      rw [Nat.add_right_comm, Nat.add_assoc] at ha
      exact ⟨entry, hs, ha⟩

/-- Every input of an accepted transaction spends an output of a known script whose rules are in
force at the height, and takes one complete branch of it. -/
theorem accepted_input_takes_branch (h : validateTransactionInternal C E P L tx height acc = .ok acc')
    (hi : tx.inputs[i]? = some txin) :
    ∃ entry consumed, L.utxos.lookup txin.outpoint = some entry ∧
      (parseOutputEncumbrance entry.output.scriptPubkey).usable (P.spendFlagsAt height) ∧
      SpendBranch C tx i entry.output.scriptPubkey txin entry.output.value height (P.spendFlagsAt height)
        L.view consumed (parseOutputEncumbrance entry.output.scriptPubkey) := by
  obtain ⟨entries, hacc⟩ := validateTransactionInternal_ok h
  obtain ⟨entry, hs, consumed, hb⟩ := hacc.spends.at hi
  rw [Nat.zero_add] at hb
  exact ⟨entry, consumed, hs.known, hb.usable, hb⟩

def paymentSignature : SignedDigest where
  digest := beVec 32 0xdce778036d19c37e880ed2f593205462a3f24f82a621a18c369077a6f66a6c99
  signature := beVec 64 0x17f53289eac961e5adc858d3ca50dab056ddca7a1a906c0815a0369312d1aa492c23d8d9aa5329a0df9e005ad5a5dc03674bad43b92b7fca26382d3053d22023
  der := (beVec 70 0x3044022017f53289eac961e5adc858d3ca50dab056ddca7a1a906c0815a0369312d1aa4902202c23d8d9aa5329a0df9e005ad5a5dc03674bad43b92b7fca26382d3053d22023).bytes

def paidOutpoint : OutPoint := ⟨beVec 32 1, 0⟩

def paymentLedger : Ledger where
  utxos := (∅ : FinMap OutPoint UtxoEntry).insert paidOutpoint ⟨⟨1000, p2pkhScript keyOnePkh⟩, 1, false⟩
  btc := ⟨Relay.empty, ∅⟩
  ltc := ⟨Relay.empty, ∅⟩

/-- The signature is followed by the hash type and the key, each with its length in front. -/
def paymentInput : TxInput where
  prevTxid := paidOutpoint.txid
  prevIndex := paidOutpoint.index
  scriptSig := [71] ++ paymentSignature.der ++ [1] ++ [33] ++ keyOne.bytes
  sequence := 0xffffffff

def payment : Transaction where
  version := 1
  inputs := [paymentInput]
  outputs := [⟨1000, p2pkhScript (ByteVec.zero 20)⟩]
  locktime := 0

theorem payment_takes_branch :
    ∃ entry consumed, paymentLedger.utxos.lookup paymentInput.outpoint = some entry ∧
      (parseOutputEncumbrance entry.output.scriptPubkey).usable (devnetParams.spendFlagsAt 10) ∧
      SpendBranch (signedCrypto paymentSignature) payment 0 entry.output.scriptPubkey paymentInput
        entry.output.value 10 (devnetParams.spendFlagsAt 10) paymentLedger.view consumed
        (parseOutputEncumbrance entry.output.scriptPubkey) :=
  have h : validateTransactionInternal (signedCrypto paymentSignature) devnetNode devnetParams paymentLedger payment
      10 ⟨[], 0, ⟨[], []⟩⟩ = .ok ⟨[paidOutpoint], 0, ⟨[], []⟩⟩ := by decide +kernel
  accepted_input_takes_branch h rfl

end IriumConsensus
