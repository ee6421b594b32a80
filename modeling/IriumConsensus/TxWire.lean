import IriumConsensus.Mempool
import IriumConsensus.Nodes
import IriumConsensus.Persist.TxCodec
import IriumConsensus.StepRules

namespace IriumConsensus

open ByteCodec Checks

variable {C : Crypto} {E : NodeEnv} {A : Ambient} {P : ChainParams} {tx tx : Transaction} {out : TxOutput} {height : Nat}

theorem readTxInput_reads {inp : TxInput} (h : inp.scriptSig.length < 256) : Reads readTxInput inp.serialize inp := by
  have hscript : (UInt8.ofNat inp.scriptSig.length).toNat = inp.scriptSig.length := by simp; omega
  have htxid := readBytes_reads inp.prevTxid.bytes eofError
  have hsig := readBytes_reads inp.scriptSig eofError
  rw [inp.prevTxid.length_bytes] at htxid
  rw [← hscript] at hsig
  rw [TxInput.serialize, inp.prevTxid.length_bytes]
  simp only [List.append_assoc]
  refine (readU8_reads eofError (UInt8.ofNat 32)).bind (htxid.bind ?_)
  rw [dif_pos inp.prevTxid.length_bytes]
  refine (readU32_reads eofError inp.prevIndex).bind ((readU8_reads eofError _).bind (hsig.bind ?_))
  exact (readU32_reads eofError inp.sequence).map _

theorem readTxOutput_reads {out : TxOutput} (h : out.scriptPubkey.length < 2 ^ 64) :
    Reads readTxOutput out.serialize out := by
  rw [TxOutput.serialize, List.append_assoc]
  refine (readU64_reads eofError out.value).bind ((readVarint_reads h _).bind ?_)
  exact (readBytes_reads out.scriptPubkey eofError).map _

theorem decodeFullTxAt_reads (h : tx.Fits) : Reads decodeFullTxAt tx.serialize tx := by
  have hcount : ∀ {n : Nat}, n < 256 → (UInt8.ofNat n).toNat = n := fun hn => by simp; omega
  have hin := readMany_reads fun inp hinp => readTxInput_reads (h.scriptSig inp hinp)
  have hout := readMany_reads fun out hout => readTxOutput_reads (h.scriptPubkey out hout)
  rw [← hcount h.inputs] at hin
  rw [← hcount h.outputs] at hout
  rw [Transaction.serialize]
  simp only [List.append_assoc]
  refine (readU32_reads eofError tx.version).bind ((readU8_reads eofError _).bind (hin.bind ?_))
  exact (readU8_reads eofError _).bind (hout.bind ((readU32_reads eofError tx.locktime).map _))

theorem readTxInput_yields : Yields readTxInput fun inp => inp.scriptSig.length < 256 := by
  refine yields_bind fun _ => yields_bind fun raw => ?_
  split
  next =>
    refine yields_bind fun _ => yields_bind fun n => (readBytes_yields n.toNat _).bind fun script hscript => ?_
    exact yields_bind fun _ => yields_pure (hscript.trans_lt n.toNat_lt)
  next => exact yields_throw _

theorem readTxOutput_yields : Yields readTxOutput fun out => out.scriptPubkey.length < 2 ^ 64 := by
  refine yields_bind fun _ => (readVarint_yields _).bind fun n hn => (readBytes_yields n _).bind fun script hscript => ?_
  exact yields_pure (hscript.trans_lt hn)

theorem decodeFullTxAt_yields : Yields decodeFullTxAt Transaction.Fits := by
  refine yields_bind fun _ => yields_bind fun n => (readTxInput_yields.readMany n.toNat).bind fun inputs hin => ?_
  refine yields_bind fun m => (readTxOutput_yields.readMany m.toNat).bind fun outputs hout => ?_
  refine yields_bind fun _ => yields_pure ⟨hin.1.trans_lt n.toNat_lt, hout.1.trans_lt m.toNat_lt, hin.2, hout.2⟩

theorem decodeFullTx_eq_ok {raw : Bytes} :
    decodeFullTx raw = .ok tx ↔ decodeFullTxAt raw = .ok (tx, []) := by
  unfold decodeFullTx
  rcases decodeFullTxAt raw with e | ⟨t, rest⟩
  · exact iff_of_false (by rintro ⟨⟩) (by rintro ⟨⟩)
  · by_cases hrest : rest = []
    · simp [bind, Except.bind, pure, Except.pure, hrest]
    · simp [bind, Except.bind, throw, throwThe, MonadExceptOf.throw, hrest]

theorem decodeFullTx_serialize_iff : decodeFullTx tx.serialize = .ok tx ↔ tx.Fits := by
  rw [decodeFullTx_eq_ok]
  refine ⟨fun h => decodeFullTxAt_yields _ _ _ h, fun h => ?_⟩
  simpa using decodeFullTxAt_reads h []

theorem checkMpsoOutput_length {active : Bool} (h : checkMpsoOutput C active out height = .ok ()) :
    out.scriptPubkey.length ≤ 640 := by
  simp only [checkMpsoOutput, bind_eq_ok, exists_unit, failIf_eq_ok, not_lt] at h
  exact h.2.1

theorem checkBatchOutput_length {chain : ForeignChain} (h : checkBatchOutput P chain out height = .ok ()) :
    out.scriptPubkey.length ≤ chain.maxBatchBytes := by
  simp only [checkBatchOutput, bind_eq_ok, exists_unit, failIf_eq_ok, not_lt] at h
  exact h.2.2.1

theorem validateOutput_length (h : validateOutput C P out height = .ok ()) : out.scriptPubkey.length < 2 ^ 64 := by
  have hbatch : ∀ chain : ForeignChain, chain.maxBatchBytes < 2 ^ 64 := by rintro ⟨⟩ <;> decide
  simp only [validateOutput, bind_eq_ok, exists_unit] at h
  obtain ⟨-, h⟩ := h
  split_ifs at h
  · exact (checkMpsoOutput_length h).trans_lt (by decide)
  · exact (checkBatchOutput_length h).trans_lt (hbatch _)
  · exact (checkBatchOutput_length h).trans_lt (hbatch _)
  · simp only [bind_eq_ok, exists_unit, failIf_eq_ok, not_lt] at h
    exact h.1.trans_lt (by decide)

/-- What validation leaves open: the lengths written in one byte, and the scripts of a coinbase's carriers. -/
structure Transaction.LengthsFit (tx : Transaction) : Prop where
  inputs : tx.inputs.length < 256
  outputs : tx.outputs.length < 256
  scriptSig : ∀ inp ∈ tx.inputs, inp.scriptSig.length < 256
  coinbase : isCoinbase tx → ∀ out ∈ tx.outputs, out.scriptPubkey.length < 2 ^ 64

instance (tx : Transaction) : Decidable tx.LengthsFit :=
  decidable_of_iff (_ ∧ _ ∧ _ ∧ _)
    ⟨fun h => ⟨h.1, h.2.1, h.2.2.1, h.2.2.2⟩, fun h => ⟨h.inputs, h.outputs, h.scriptSig, h.coinbase⟩⟩

theorem Transaction.Fits.lengthsFit (h : tx.Fits) : tx.LengthsFit :=
  ⟨h.inputs, h.outputs, h.scriptSig, fun _ => h.scriptPubkey⟩

theorem TxsAccepted.outputs {L : Ledger} {txs : List Transaction} {acc acc' : TxAcc} {entries : List UtxoEntry}
    (h : TxsAccepted C E P height L txs acc acc' entries) (htx : tx ∈ txs) :
    ∀ out ∈ tx.outputs, validateOutput C P out height = .ok () := by
  induction h with
  | nil => cases htx
  | cons _ ht _ ih =>
    rcases List.mem_cons.mp htx with rfl | htx
    · exact ht.outputs
    · exact ih htx

namespace ChainState

variable {s s' : ChainState} {b : Block}

/-- The transaction is part of a block that `connectBlock` accepts on `s`, or passes on its own. -/
inductive AcceptsTx (C : Crypto) (E : NodeEnv) (s : ChainState) (tx : Transaction) : Prop
  | inBlock {A : Ambient} {b : Block} {s' : ChainState} (hc : connectBlock C E A b s = (.ok (), s'))
      (htx : tx ∈ b.transactions)
  | alone (h : validateTransaction C E s tx = .ok ())

theorem connectBlock_outputs (hc : connectBlock C E A b s = (.ok (), s')) (htx : tx ∈ b.transactions) :
    isCoinbase tx ∨ ∀ out ∈ tx.outputs, validateOutput C s.params out s.height = .ok () := by
  obtain ⟨-, undo, L, hL, -⟩ := connectBlock_eq_ok.mp hc
  cases applyTransactions_ok hL with
  | mk htxs hcoinbase haccepted =>
    rw [htxs] at htx
    rcases List.mem_cons.mp htx with rfl | htx
    · exact .inl hcoinbase
    · exact .inr (haccepted.outputs htx)

theorem validateTransaction_outputs (h : validateTransaction C E s tx = .ok ()) :
    ∀ out ∈ tx.outputs, validateOutput C s.params out s.height = .ok () := by
  simp only [validateTransaction, bind_eq_ok, exists_unit, discard_eq_ok] at h
  obtain ⟨-, -, acc, hacc⟩ := h
  obtain ⟨entries, ht⟩ := validateTransactionInternal_ok hacc
  exact ht.outputs

theorem AcceptsTx.fits_iff (h : AcceptsTx C E s tx) : tx.Fits ↔ tx.LengthsFit := by
  refine ⟨fun hf => hf.lengthsFit, fun hf => ⟨hf.inputs, hf.outputs, hf.scriptSig, ?_⟩⟩
  cases h with
  | inBlock hc htx =>
    rcases connectBlock_outputs hc htx with hcb | hout
    · exact hf.coinbase hcb
    · exact fun out ho => validateOutput_length (hout out ho)
  | alone hv => exact fun out ho => validateOutput_length (validateTransaction_outputs hv out ho)

/-- An accepted transaction survives the wire exactly if its lengths fit, and such transactions are told apart by
their bytes. -/
theorem accepted_transaction_codec (C : Crypto) (E : NodeEnv) :
    (∀ s tx, AcceptsTx C E s tx → (decodeFullTx tx.serialize = .ok tx ↔ tx.LengthsFit)) ∧
    ∀ s s' tx tx', AcceptsTx C E s tx → AcceptsTx C E s' tx' → tx.LengthsFit → tx'.LengthsFit →
      tx.serialize = tx'.serialize → tx = tx' := by
  have hiff : ∀ s tx, AcceptsTx C E s tx → (decodeFullTx tx.serialize = .ok tx ↔ tx.LengthsFit) :=
    fun s tx h => decodeFullTx_serialize_iff.trans h.fits_iff
  refine ⟨hiff, fun s s' tx tx' h h' hf hf' heq => ?_⟩
  have hd := (hiff s tx h).mpr hf
  have hd' := (hiff s' tx' h').mpr hf'
  rw [heq, hd'] at hd
  exact (Except.ok.inj hd).symm

def shortCoinbase : Transaction := coinbaseTx [] [⟨5000000000, p2pkhScript (ByteVec.zero 20)⟩]

theorem short_coinbase_decodes :
    ∃ s, new shaCrypto devnetNode quietAmbient devnetParams = some s ∧
      AcceptsTx shaCrypto devnetNode s shortCoinbase ∧
      decodeFullTx shortCoinbase.serialize = .ok shortCoinbase ∧
      ∀ s' tx, AcceptsTx shaCrypto devnetNode s' tx → tx.LengthsFit → shortCoinbase.serialize = tx.serialize →
        shortCoinbase = tx := by
  obtain ⟨s, hs, hok⟩ := exists_of_any (new shaCrypto devnetNode quietAmbient devnetParams)
    (fun s => (connectBlock shaCrypto devnetNode quietAmbient (committeeBlock lockedGenesisHash 1767583931 1) s).1 =
      .ok ()) (by decide +kernel)
  have hfits : shortCoinbase.LengthsFit := by decide
  have ha : AcceptsTx shaCrypto devnetNode s shortCoinbase := .inBlock (Prod.ext hok rfl) (.head _)
  obtain ⟨hiff, hinj⟩ := accepted_transaction_codec shaCrypto devnetNode
  exact ⟨s, hs, ha, (hiff s _ ha).mpr hfits, fun s' tx h' hf' => hinj s s' _ tx ha h' hfits hf'⟩

/-- A script of 256 bytes, written with the length byte 0; the rest of it reads as a sequence number and one output
whose script takes in what follows. -/
def overlongCoinbase : Transaction :=
  coinbaseTx ([0xff, 0xff, 0xff, 0xff, 1, 0, 0, 0, 0, 0, 0, 0, 0, 0xfd, 0xfe, 0x00] ++ List.replicate 240 0) [⟨0, []⟩]

def misreadCoinbase : Transaction :=
  coinbaseTx [] [⟨0, List.replicate 240 0 ++ [0xff, 0xff, 0xff, 0xff, 1, 0, 0, 0, 0, 0, 0, 0, 0, 0]⟩]

def overlongBlock (tx : Transaction) : Block :=
  devnetBlock lockedGenesisHash (beVec 32 0x1e14077ff81ce5d97e91a85dd6bbe213b34e6a67e4aa87d0f02b450ac5c490f3)
    1767583931 2 [tx]

theorem overlong_coinbase_misread :
    overlongCoinbase ≠ misreadCoinbase ∧ overlongCoinbase.serialize = misreadCoinbase.serialize ∧
      decodeFullTx overlongCoinbase.serialize = .ok misreadCoinbase ∧
      ∃ s, new shaCrypto devnetNode quietAmbient devnetParams = some s ∧
        (connectBlock shaCrypto devnetNode quietAmbient (overlongBlock overlongCoinbase) s).1 = .ok () ∧
        (connectBlock shaCrypto devnetNode quietAmbient (overlongBlock misreadCoinbase) s).1 = .ok () := by
  obtain ⟨s, hs, hp⟩ := exists_of_any (new shaCrypto devnetNode quietAmbient devnetParams)
    (fun s => (connectBlock shaCrypto devnetNode quietAmbient (overlongBlock overlongCoinbase) s).1 = .ok () ∧
      (connectBlock shaCrypto devnetNode quietAmbient (overlongBlock misreadCoinbase) s).1 = .ok ()) (by decide +kernel)
  exact ⟨by decide, by decide +kernel, by decide +kernel, s, hs, hp⟩

end ChainState

end IriumConsensus
