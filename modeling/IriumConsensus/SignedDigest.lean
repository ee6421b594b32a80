import IriumConsensus.Persist.TxCodec
import IriumConsensus.RealHash
import IriumConsensus.SpendAuth

namespace IriumConsensus

open ByteCodec

/-- The length of a recognised script, read off its first bytes. -/
def scriptCodeLength (bs : Bytes) : Nat :=
  if bs[0]? = some 0x76 then 25
  else if bs[0]? = some htlcV1ScriptTag then 83
  else if bs[0]? = some mpsoV1Tag then
    48 + ((bs[4]?.getD 0).toNat + (bs[6]?.getD 0).toNat) * 33 + (if mpsoSecretGate (bs[2]?.getD 0) then 32 else 0)
  else if bs[0]? = some htlcBtcSwapV1Tag ∨ bs[0]? = some htlcLtcSwapV1Tag then 87
  else if bs[2]? = some directionBuy then 108
  else 76

variable {script : Bytes} {tx : Transaction}

theorem scriptCodeLength_parsed {v : OutputEncumbrance} (hv : v ≠ .unknown) (h : ParsedAs script v) :
    scriptCodeLength script = script.length ∧ 8 ≤ script.length ∧ script.length % 256 ≠ 0 := by
  cases v with
  | unknown => exact absurd rfl hv
  | p2pkh pkh =>
    simp only [ParsedAs, parseP2pkhScript, Option.bind_eq_bind, Option.bind_eq_some_iff, Option.guard_eq_some',
      exists_const] at h
    obtain ⟨hlen, ⟨h0, -⟩, -⟩ := h
    rw [scriptCodeLength, h0, hlen]
    exact ⟨rfl, by decide, by decide⟩
  | htlcV1 htlc =>
    simp only [ParsedAs, parseHtlcv1Script, Option.bind_eq_bind, Option.bind_eq_some_iff, Option.guard_eq_some',
      exists_const] at h
    obtain ⟨hlen, ⟨h0, -⟩, -⟩ := h
    rw [scriptCodeLength, h0, hlen]
    exact ⟨rfl, by decide, by decide⟩
  | mpsoV1 mpso =>
    simp only [ParsedAs, parseMpsoScript, Option.bind_eq_bind, Option.bind_eq_some_iff, Option.guard_eq_some',
      exists_const] at h
    obtain ⟨-, ⟨h0, -⟩, flags, h2, -, -, cn, h4, cm, -, rn, h6, rm, -, hcn, -, hrn, -, hlen, -⟩ := h
    have hcn' := UInt8.le_iff_toNat_le.mp hcn.2
    have hcn'' := UInt8.le_iff_toNat_le.mp hcn.1
    have hrn' := UInt8.le_iff_toNat_le.mp hrn.2
    have hrn'' := UInt8.le_iff_toNat_le.mp hrn.1
    rw [scriptCodeLength, h0, h2, h4, h6, hlen, if_neg (by decide), if_neg (by decide), if_pos rfl]
    refine ⟨rfl, ?_⟩
    simp at hcn' hcn'' hrn' hrn''
    split <;> omega
  | htlcBtcSwapV1 swap | htlcLtcSwapV1 swap =>
    simp only [ParsedAs, parseHtlcBtcSwapV1Script, parseHtlcLtcSwapV1Script, parseHtlcSwapScript, Option.bind_eq_bind,
      Option.bind_eq_some_iff, Option.guard_eq_some', exists_const] at h
    obtain ⟨hlen, ⟨h0, -⟩, -⟩ := h
    rw [scriptCodeLength, h0, hlen]
    exact ⟨rfl, by decide, by decide⟩
  | swapOrder order | ltcSwapOrder order =>
    simp only [ParsedAs, parseSwapOrderScript, parseLtcSwapOrderScript, parseOrderScript, Option.bind_eq_bind,
      Option.bind_eq_some_iff, Option.guard_eq_some', exists_const] at h
    obtain ⟨-, ⟨h0, -⟩, direction, h2, hdir, hlen, -⟩ := h
    rw [scriptCodeLength, h0, h2, hlen]
    rcases hdir with rfl | rfl <;> exact ⟨rfl, by decide, by decide⟩

theorem scriptCodeLength_append (h : 8 ≤ script.length) (rest : Bytes) :
    scriptCodeLength (script ++ rest) = scriptCodeLength script := by
  have hbyte : ∀ i, i < 8 → (script ++ rest)[i]? = script[i]? := by
    intro i hi
    exact List.getElem?_append_left (by omega)
  simp only [scriptCodeLength, hbyte 0 (by decide), hbyte 2 (by decide), hbyte 4 (by decide), hbyte 6 (by decide)]

/-- A blanked input, or the input that is signed with the script of a recognised encumbrance. -/
def ScriptCode (script : Bytes) : Prop := script = [] ∨ parseOutputEncumbrance script ≠ .unknown

theorem ne_nil_of_recognised (h : parseOutputEncumbrance script ≠ .unknown) : script ≠ [] := by
  rintro rfl
  exact h rfl

/-- The length byte of a long script wraps; the script behind it still tells its length. -/
def readScriptCode : Reader Bytes := do
  let length ← readU8 eofError
  if length = 0 then return [] else fun bs => readBytes (scriptCodeLength bs) eofError bs

theorem readScriptCode_reads (h : ScriptCode script) :
    Reads readScriptCode ([UInt8.ofNat script.length] ++ script) script := by
  rcases h with rfl | h
  · exact fun _ => rfl
  · obtain ⟨hlen, hlong, hmod⟩ := scriptCodeLength_parsed h (parseOutputEncumbrance_parsedAs script)
    have hbyte : UInt8.ofNat script.length ≠ 0 := by
      intro hz
      exact hmod (by simpa using congrArg UInt8.toNat hz)
    refine (readU8_reads eofError _).bind fun rest => ?_
    rw [if_neg hbyte, scriptCodeLength_append hlong, hlen]
    exact readBytes_reads script eofError rest

def readSignedInput : Reader TxInput := do
  let _ ← readU8 eofError
  let prevTxid ← readVec 32 eofError
  let prevIndex ← readU32 eofError
  let scriptSig ← readScriptCode
  let sequence ← readU32 eofError
  return ⟨prevTxid, prevIndex, scriptSig, sequence⟩

def readSignedTx : Reader Transaction := do
  let version ← readU32 eofError
  let inputCount ← readLen 1 eofError
  let inputs ← readMany readSignedInput inputCount
  let outputCount ← readLen 1 eofError
  let outputs ← readMany readCompactOutput outputCount
  let locktime ← readU32 eofError
  return ⟨version, inputs, outputs, locktime⟩

theorem readSignedInput_reads {inp : TxInput} (h : ScriptCode inp.scriptSig) :
    Reads readSignedInput inp.serialize inp := by
  have hscript := readScriptCode_reads h
  rw [TxInput.serialize, List.append_assoc _ [UInt8.ofNat inp.scriptSig.length]]
  simp only [List.append_assoc _ _ (le32 inp.sequence), List.append_assoc [UInt8.ofNat inp.prevTxid.bytes.length],
    List.append_assoc inp.prevTxid.bytes]
  refine (readU8_reads eofError _).bind ((readVec_reads eofError inp.prevTxid).bind ?_)
  exact (readU32_reads eofError inp.prevIndex).bind (hscript.bind ((readU32_reads eofError inp.sequence).map _))

theorem readSignedTx_reads (hin : tx.inputs.length < 256) (hout : tx.outputs.length < 256)
    (hcode : ∀ inp ∈ tx.inputs, ScriptCode inp.scriptSig)
    (hscript : ∀ out ∈ tx.outputs, out.scriptPubkey.length < 2 ^ 64) : Reads readSignedTx tx.serialize tx := by
  have hinputs := readMany_reads fun inp hinp => readSignedInput_reads (hcode inp hinp)
  have houtputs := readMany_reads fun out hout => readCompactOutput_reads (hscript out hout)
  rw [Transaction.serialize]
  simp only [List.append_assoc]
  refine (readU32_reads eofError tx.version).bind ((readLen_reads (w := 1) hin eofError).bind (hinputs.bind ?_))
  refine (readLen_reads (w := 1) hout eofError).bind (houtputs.bind ?_)
  exact (readU32_reads eofError tx.locktime).map _

/-- What is signed of a transaction for one of its inputs. -/
def signedForm (tx : Transaction) (inputIndex : Nat) (script : Bytes) : Transaction :=
  { tx with inputs := tx.inputs.mapIdx fun idx inp =>
      { inp with scriptSig := if idx = inputIndex then script else [] } }

def signaturePreimage (tx : Transaction) (inputIndex : Nat) (script : Bytes) : Bytes :=
  (signedForm tx inputIndex script).serialize ++ le32 1

theorem signatureDigest_eq (C : Crypto) (tx : Transaction) (inputIndex : Nat) (script : Bytes) :
    signatureDigest C tx inputIndex script = sha256d C (signaturePreimage tx inputIndex script) := rfl

/-- The counts fit their byte, as the script lengths of outputs do their eight. -/
structure Transaction.Counted (tx : Transaction) : Prop where
  inputs : tx.inputs.length ≤ 255
  outputs : tx.outputs.length ≤ 255
  scriptPubkey : ∀ out ∈ tx.outputs, out.scriptPubkey.length < 2 ^ 64

theorem readSignedTx_signedForm (htx : tx.Counted) (i : Nat) (hs : parseOutputEncumbrance script ≠ .unknown) :
    Reads readSignedTx (signedForm tx i script).serialize (signedForm tx i script) := by
  refine readSignedTx_reads ?_ (Nat.lt_succ_of_le htx.outputs) ?_ htx.scriptPubkey
  · simpa [signedForm] using Nat.lt_succ_of_le htx.inputs
  · intro inp hinp
    obtain ⟨j, hj, rfl⟩ := List.mem_mapIdx.mp hinp
    by_cases hji : j = i
    · simp only [hji, if_true]
      exact .inr hs
    · exact .inl (if_neg hji)

def TxInput.outpointSequence (inp : TxInput) : Hash32 × UInt32 × UInt32 := (inp.prevTxid, inp.prevIndex, inp.sequence)

theorem signedForm_outpoints (tx : Transaction) (i : Nat) (script : Bytes) :
    (signedForm tx i script).inputs.map TxInput.outpointSequence = tx.inputs.map TxInput.outpointSequence := by
  refine List.ext_getElem? fun k => ?_
  simp only [signedForm, List.getElem?_map, List.getElem?_mapIdx, Option.map_map]
  rfl

theorem signedForm_inj {tx' : Transaction} {i i' : Nat} {script' : Bytes} (hi : i < tx.inputs.length)
    (hs : script ≠ []) (h : signedForm tx i script = signedForm tx' i' script') :
    tx.version = tx'.version ∧ tx.locktime = tx'.locktime ∧ tx.outputs = tx'.outputs ∧
      tx.inputs.map TxInput.outpointSequence = tx'.inputs.map TxInput.outpointSequence ∧ i = i' ∧ script = script' := by
  obtain ⟨hversion, hinputs, houtputs, hlocktime⟩ := Transaction.mk.inj h
  refine ⟨hversion, hlocktime, houtputs, ?_, ?_⟩
  · rw [← signedForm_outpoints tx i script, h, signedForm_outpoints]
  · have hat := congrArg (fun inputs => inputs[i]?.map TxInput.scriptSig) hinputs
    have hi' : i < tx'.inputs.length := by
      have hlen := congrArg List.length hinputs
      simp only [List.length_mapIdx] at hlen
      omega
    simp only [List.getElem?_mapIdx, List.getElem?_eq_getElem hi, List.getElem?_eq_getElem hi', Option.map_some,
      if_true, Option.some.injEq] at hat
    split at hat
    next he => exact ⟨he, hat⟩
    next => exact absurd hat hs

/-- A signature commits to the transaction, to the input it is for and to the script it spends. -/
theorem signature_digest_binds {C : Crypto} {S : Set Bytes} (hinj : Set.InjOn (sha256d C) S)
    {tx tx' : Transaction} (htx : tx.Counted) (htx' : tx'.Counted) {i i' : Nat} (hi : i < tx.inputs.length)
    {script script' : Bytes} (hs : parseOutputEncumbrance script ≠ .unknown)
    (hs' : parseOutputEncumbrance script' ≠ .unknown) (hmem : signaturePreimage tx i script ∈ S)
    (hmem' : signaturePreimage tx' i' script' ∈ S)
    (h : signatureDigest C tx i script = signatureDigest C tx' i' script') :
    tx.version = tx'.version ∧ tx.locktime = tx'.locktime ∧ tx.outputs = tx'.outputs ∧
      tx.inputs.map TxInput.outpointSequence = tx'.inputs.map TxInput.outpointSequence ∧ i = i' ∧ script = script' := by
  rw [signatureDigest_eq, signatureDigest_eq] at h
  have hbytes := hinj hmem hmem' h
  have hread := readSignedTx_signedForm htx i hs (le32 1)
  have hread' := readSignedTx_signedForm htx' i' hs' (le32 1)
  rw [signaturePreimage, signaturePreimage] at hbytes
  rw [hbytes, hread'] at hread
  exact signedForm_inj hi (ne_nil_of_recognised hs) (Prod.mk.inj (Except.ok.inj hread)).1.symm

/-- A transaction and the same one with its input signed have one digest, so the theorem is about both. -/
theorem signature_digest_binds_signed :
    ∃ tx tx' : Transaction, tx ≠ tx' ∧
      tx.inputs.map TxInput.outpointSequence = tx'.inputs.map TxInput.outpointSequence := by
  have hcounted : ∀ sig, Transaction.Counted ⟨1, [⟨ByteVec.zero 32, 0, sig, 0⟩], [⟨5, []⟩], 0⟩ := by
    intro sig
    exact ⟨by simp, by simp, by simp⟩
  have hscript : parseOutputEncumbrance (p2pkhScript (ByteVec.zero 20)) ≠ .unknown := by decide
  have hbinds := signature_digest_binds (C := shaCrypto) (Set.injOn_singleton _ _) (hcounted []) (hcounted [1])
    (Nat.zero_lt_one) hscript hscript rfl rfl rfl
  exact ⟨_, _, by simp, hbinds.2.2.2.1⟩

end IriumConsensus
