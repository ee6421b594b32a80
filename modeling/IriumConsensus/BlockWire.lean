import IriumConsensus.Persist.ReceiptCodec
import IriumConsensus.TxWire

namespace IriumConsensus

open ByteCodec Checks

variable {C : Crypto} {E : NodeEnv} {A : Ambient} {height fuel : Nat} {magic tail rest : Bytes}
  {r : Reader PoawxBlockReceipt} {receipts : List PoawxBlockReceipt} {b : Block}
  {found : Option (List PoawxBlockReceipt)}

def BlockHeader.reader (E : NodeEnv) (height : Nat) : Reader BlockHeader := do
  let version ← readU32 eofError
  let prevHash ← readVec 32 sliceError
  let merkleRoot ← readVec 32 sliceError
  let time ← readU32 eofError
  let bits ← readU32 eofError
  let nonce ← readU32 eofError
  return ⟨version, prevHash.reverse,
    if height < E.standardHeaderActivationHeight then merkleRoot.reverse else merkleRoot, time, bits, nonce⟩

def BlockHeader.deserializeForHeight (E : NodeEnv) (height : Nat) : Reader BlockHeader := fun raw =>
  if raw.length < 80 then .error "header too short" else BlockHeader.reader E height raw

namespace PoawxBlockReceipt

def wireSize : Nat := 166

def reader : Reader PoawxBlockReceipt := do
  let height ← readU64 sliceError
  let lane ← readU8 sliceError
  let workerPkh ← readVec 20 sliceError
  let workerPubkey ← readVec 33 sliceError
  let workerSig ← readVec 64 sliceError
  let solution ← readVec 8 sliceError
  let commitmentNonce ← readVec 32 sliceError
  return ⟨height, lane, workerPkh, workerPubkey, workerSig, solution, commitmentNonce, none, none⟩

def deserialize (raw : Bytes) : Except String PoawxBlockReceipt :=
  if raw.length < wireSize then .error s!"poawx receipt too short: {raw.length} < {wireSize}"
  else (reader raw).map Prod.fst

def readV1 : Reader PoawxBlockReceipt := readSlice wireSize "receipt section truncated" deserialize

def deserializeV2 : Reader PoawxBlockReceipt := do
  let mode ← readU8 "poawx v2 receipt: missing mode byte"
  let receipt ← readSlice wireSize "poawx v2 receipt: legacy body truncated" deserialize
  if mode = 0 then return { receipt with delegation := none }
  else if mode = 1 then do
    let d ← readSlice Delegation.wireSize "poawx v2 receipt: delegation truncated" Delegation.deserialize
    return { receipt with delegation := some d }
  else throw s!"poawx v2 receipt: unknown mode {mode}"

def deserializeV3 : Reader PoawxBlockReceipt := do
  let receipt ← deserializeV2
  let flag ← readU8 "poawx v3 receipt: missing extension flag"
  if flag = 0 then return { receipt with phase20Ext := none }
  else if flag = 1 then do
    let len ← readLen 4 "poawx v3 receipt: missing extension length"
    let ext ← readSlice len "poawx v3 receipt: extension truncated" Phase20ReceiptExt.deserialize
    return { receipt with phase20Ext := some ext }
  else throw s!"poawx v3 receipt: bad extension flag {flag}"

end PoawxBlockReceipt

def receiptSectionMagic : Bytes := asciiBytes "POAWXR" ++ [1, 0]
def receiptSectionMagicV2 : Bytes := asciiBytes "POAWXR" ++ [2, 0]
def receiptSectionMagicV3 : Bytes := asciiBytes "POAWXR" ++ [3, 0]

def receiptSection (magic : Bytes) (enc : PoawxBlockReceipt → Bytes) (receipts : List PoawxBlockReceipt) : Bytes :=
  magic ++ [UInt8.ofNat receipts.length] ++ receipts.flatMap enc

def serializeReceiptSection (b : Block) : Bytes :=
  match b.poawxReceipts with
  | none => []
  | some receipts =>
    if receipts = [] then []
    else if receipts.any fun r => r.phase20Ext.isSome then
      receiptSection receiptSectionMagicV3 PoawxBlockReceipt.serializeV3 receipts
    else if receipts.any fun r => r.delegation.isSome then
      receiptSection receiptSectionMagicV2 PoawxBlockReceipt.serializeV2 receipts
    else receiptSection receiptSectionMagic PoawxBlockReceipt.serialize receipts

def receiptReader (magic : Bytes) : Option (Reader PoawxBlockReceipt) :=
  if magic = receiptSectionMagic then some PoawxBlockReceipt.readV1
  else if magic = receiptSectionMagicV2 then some PoawxBlockReceipt.deserializeV2
  else if magic = receiptSectionMagicV3 then some PoawxBlockReceipt.deserializeV3
  else none

def tryParseReceiptSection : Reader (Option (List PoawxBlockReceipt)) := fun raw =>
  match receiptReader (raw.take 8) with
  | none => .ok (none, raw)
  | some r => (do
      let count ← readU8 "receipt section: missing count byte"
      let receipts ← readMany r count.toNat
      return some receipts : Reader (Option (List PoawxBlockReceipt))) (raw.drop 8)

/-- Transactions up to the end of the input or to a receipt section, which ends the loop. Every transaction takes some
bytes, so the fuel is the length of the input. -/
def readBody : Nat → Reader (List Transaction × Option (List PoawxBlockReceipt))
  | 0 => pure ([], none)
  | fuel + 1 => fun raw =>
    if raw = [] then .ok (([], none), [])
    else (do
      match ← tryParseReceiptSection with
      | some receipts => return ([], some receipts)
      | none => do
        let tx ← decodeFullTxAt
        let (txs, receipts) ← readBody fuel
        return (tx :: txs, receipts) : Reader (List Transaction × Option (List PoawxBlockReceipt))) raw

def mainnetAuxpowActivationHeight : Nat := 24800

/-- Whether the parser expects merged-mining data behind the header, on every network. -/
def BlockHeader.announcesAuxpow (h : BlockHeader) (height : Nat) : Bool :=
  h.version &&& auxpowVersionBit ≠ 0 ∧ mainnetAuxpowActivationHeight ≤ height

def readAuxpow (announced : Bool) : Reader (Option AuxPow) :=
  if announced then some <$> AuxPow.reader else pure none

/-- What is left of the input is handed back with the block; it may be more than nothing behind receipts. -/
def Block.deserializeForHeight (E : NodeEnv) (height : Nat) : Reader Block := do
  let header ← BlockHeader.deserializeForHeight E height
  let auxpow ← readAuxpow (header.announcesAuxpow height)
  let body ← fun raw => readBody raw.length raw
  return ⟨header, body.1, auxpow, body.2⟩

def Block.serializeForHeight (E : NodeEnv) (b : Block) (height : Nat) : Bytes :=
  b.header.serializeForHeight E height ++ serializeOption AuxPow.serialize b.auxpow ++
    b.transactions.flatMap Transaction.serialize ++ serializeReceiptSection b

theorem BlockHeader.deserializeForHeight_reads (E : NodeEnv) (h : BlockHeader) (height : Nat) :
    Reads (BlockHeader.deserializeForHeight E height) (h.serializeForHeight E height) h := by
  intro rest
  have hlen : ¬(h.serializeForHeight E height ++ rest).length < 80 := by
    simp [BlockHeader.serializeForHeight, le32]
    omega
  rw [BlockHeader.deserializeForHeight, if_neg hlen, BlockHeader.serializeForHeight, BlockHeader.reader]
  simp only [List.append_assoc, readU32_bind, readVec_bind, reader_pure, ByteVec.reverse_reverse]
  split <;> simp

namespace PoawxBlockReceipt

variable {r : PoawxBlockReceipt}

theorem serialize_length (r : PoawxBlockReceipt) : r.serialize.length = wireSize := by
  simp [serialize, le64, wireSize]

theorem deserialize_serialize (r : PoawxBlockReceipt) :
    deserialize r.serialize = .ok { r with delegation := none, phase20Ext := none } := by
  rw [deserialize, if_neg (not_lt.mpr r.serialize_length.ge)]
  refine Reads.decode fun rest => ?_
  simp [reader, serialize, reader_pure, -bind_pure_comp]

theorem readV1_reads (hd : r.delegation = none) (he : r.phase20Ext = none) : Reads readV1 r.serialize r := by
  have h := readSlice_reads r.serialize_length r.deserialize_serialize "receipt section truncated"
  rwa [← hd, ← he] at h

theorem deserializeV2_reads (r : PoawxBlockReceipt) :
    Reads deserializeV2 r.serializeV2 { r with phase20Ext := none } := by
  have hbody := readSlice_reads r.serialize_length r.deserialize_serialize "poawx v2 receipt: legacy body truncated"
  rw [serializeV2, List.append_assoc]
  refine (readU8_reads _ _).bind (hbody.bind ?_)
  cases hd : r.delegation with
  | none => exact reads_pure _
  | some d =>
    have hdeleg := readSlice_reads d.serialize_length d.deserialize_serialize "poawx v2 receipt: delegation truncated"
    exact hdeleg.map _

theorem deserializeV3_reads (he : ∀ e ∈ r.phase20Ext, e.Fits) : Reads deserializeV3 r.serializeV3 r := by
  rw [serializeV3]
  refine r.deserializeV2_reads.bind ?_
  cases hext : r.phase20Ext with
  | none => exact (readU8_reads _ 0).bind_nil (by rw [← hext]; exact reads_pure r)
  | some e =>
    have hfits := he e hext
    have hslice := readSlice_reads rfl (Phase20ReceiptExt.deserialize_serialize hfits)
      "poawx v3 receipt: extension truncated"
    simp only [List.append_assoc]
    refine (readU8_reads _ 1).bind ((readLen_reads (Phase20ReceiptExt.serialize_length hfits) _).bind ?_)
    have hread : Reads _ e.serialize { r with phase20Ext := some e } :=
      hslice.map fun ext => { r with phase20Ext := some ext }
    rwa [← hext] at hread

theorem deserialize_fits {raw : Bytes} {r : PoawxBlockReceipt} (h : deserialize raw = .ok r) : r.phase20Ext = none := by
  unfold deserialize at h
  split_ifs at h
  refine Yields.decode (P := fun r => r.phase20Ext = none) ?_ h
  refine yields_bind fun _ => yields_bind fun _ => yields_bind fun _ => yields_bind fun _ => yields_bind fun _ => ?_
  exact yields_bind fun _ => yields_bind fun _ => yields_pure rfl

theorem deserializeV2_yields : Yields deserializeV2 fun r => r.phase20Ext = none := by
  refine yields_bind fun mode => (readSlice_yields (fun _ _ => deserialize_fits) _ _).bind fun r hr => ?_
  split_ifs
  · exact yields_pure hr
  · exact yields_bind fun d => yields_pure hr
  · exact yields_throw _

theorem deserializeV3_yields : Yields deserializeV3 fun r => ∀ e ∈ r.phase20Ext, e.Fits := by
  refine yields_bind fun r => yields_bind fun flag => ?_
  split_ifs
  · exact yields_pure (by simp)
  · refine yields_bind fun len => (readSlice_yields (fun _ _ => Phase20ReceiptExt.fits_of_deserialize) _ _).bind ?_
    exact fun ext hext => yields_pure (by simpa using hext)
  · exact yields_throw _

end PoawxBlockReceipt

/-- The receipts of a section: some, no more than the count byte can say, each with parts that fit. -/
structure ReceiptsFit (receipts : List PoawxBlockReceipt) : Prop where
  length : receipts.length < 256
  ext : ∀ r ∈ receipts, ∀ e ∈ r.phase20Ext, e.Fits

instance (receipts : List PoawxBlockReceipt) : Decidable (ReceiptsFit receipts) :=
  decidable_of_iff (_ ∧ _) ⟨fun h => ⟨h.1, h.2⟩, fun h => ⟨h.length, h.ext⟩⟩

theorem receiptReader_yields (h : receiptReader magic = some r) :
    Yields r fun receipt => ∀ e ∈ receipt.phase20Ext, e.Fits := by
  have hnone : ∀ receipt : PoawxBlockReceipt, receipt.phase20Ext = none → ∀ e ∈ receipt.phase20Ext, e.Fits := by
    intro receipt hr e he
    rw [hr] at he
    cases he
  unfold receiptReader at h
  split_ifs at h <;> cases h
  · exact (readSlice_yields (fun _ _ => PoawxBlockReceipt.deserialize_fits) _ _).mono hnone
  · exact PoawxBlockReceipt.deserializeV2_yields.mono hnone
  · exact PoawxBlockReceipt.deserializeV3_yields

theorem tryParseReceiptSection_yields :
    Yields tryParseReceiptSection fun found => ∀ receipts ∈ found, ReceiptsFit receipts := by
  intro raw found rest h
  unfold tryParseReceiptSection at h
  cases hr : receiptReader (raw.take 8) with
  | none =>
    simp only [hr] at h
    cases h
    simp
  | some r =>
    simp only [hr] at h
    refine yields_bind (Q := fun found => ∀ receipts ∈ found, ReceiptsFit receipts) (fun count => ?_) _ _ _ h
    refine ((receiptReader_yields hr).readMany count.toNat).bind fun receipts hrs => yields_pure ?_
    simpa using ⟨hrs.1.trans_lt count.toNat_lt, hrs.2⟩

def BodyFits (body : List Transaction × Option (List PoawxBlockReceipt)) : Prop :=
  (∀ tx ∈ body.1, tx.Fits) ∧ ∀ receipts ∈ body.2, ReceiptsFit receipts

theorem readBody_yields (fuel : Nat) : Yields (readBody fuel) BodyFits := by
  induction fuel with
  | zero => exact yields_pure ⟨by simp, by simp⟩
  | succ fuel ih =>
    intro raw body rest h
    unfold readBody at h
    split_ifs at h
    · cases h
      exact ⟨by simp, by simp⟩
    · refine tryParseReceiptSection_yields.bind (Q := BodyFits) ?_ _ _ _ h
      intro found hfound
      cases found with
      | some receipts => exact yields_pure ⟨by simp, hfound⟩
      | none =>
        refine decodeFullTxAt_yields.bind fun tx htx => ih.bind fun body hbody => yields_pure ⟨?_, hbody.2⟩
        simpa using ⟨htx, hbody.1⟩

theorem receiptSection_reads {enc : PoawxBlockReceipt → Bytes} (hmagic : magic.length = 8)
    (hreader : receiptReader magic = some r) (hcount : receipts.length < 256) (h : ∀ x ∈ receipts, Reads r (enc x) x) :
    Reads tryParseReceiptSection (receiptSection magic enc receipts) (some receipts) := by
  intro rest
  have hn : (UInt8.ofNat receipts.length).toNat = receipts.length := by simp; omega
  have hmany := readMany_reads h
  rw [← hn] at hmany
  simp only [tryParseReceiptSection, receiptSection, List.append_assoc, List.take_left' hmagic, List.drop_left' hmagic,
    hreader]
  rw [(readU8_reads _ _).bind_apply, hmany.bind_apply, reader_pure]

theorem serializeReceiptSection_reads (hb : b.poawxReceipts = some receipts) (hne : receipts ≠ [])
    (hf : ReceiptsFit receipts) :
    Reads tryParseReceiptSection (serializeReceiptSection b) (some receipts) := by
  simp only [serializeReceiptSection, hb, hne, ↓reduceIte]
  split
  next => exact receiptSection_reads rfl rfl hf.length fun r hr => PoawxBlockReceipt.deserializeV3_reads (hf.ext r hr)
  next hext =>
    have hnone : ∀ r ∈ receipts, r.phase20Ext = none := by simpa using hext
    split
    next =>
      refine receiptSection_reads rfl rfl hf.length fun r hr => ?_
      have hread := r.deserializeV2_reads
      rwa [← hnone r hr] at hread
    next hdeleg =>
      have hdirect : ∀ r ∈ receipts, r.delegation = none := by simpa using hdeleg
      exact receiptSection_reads rfl rfl hf.length fun r hr => PoawxBlockReceipt.readV1_reads (hdirect r hr) (hnone r hr)

theorem Transaction.not_receiptSection (tx : Transaction) (rest : Bytes) :
    tryParseReceiptSection (tx.serialize ++ rest) = .ok (none, tx.serialize ++ rest) := by
  have hnone : receiptReader ((tx.serialize ++ rest).take 8) = none := by
    cases hin : tx.inputs with
    | nil => simp [Transaction.serialize, hin, receiptReader, receiptSectionMagic, receiptSectionMagicV2, receiptSectionMagicV3, asciiBytes, le32, leList]
    | cons inp inputs => simp [Transaction.serialize, hin, receiptReader, receiptSectionMagic, receiptSectionMagicV2, receiptSectionMagicV3, asciiBytes, le32, leList, TxInput.serialize]
  simp only [tryParseReceiptSection, hnone]

theorem Transaction.serialize_ne_nil (tx : Transaction) : tx.serialize ≠ [] := by
  simp [Transaction.serialize, le32, leList]

/-- The lengths of a block fit the bytes that they are written in, and its AuxPoW data is where a parser expects it. -/
structure Block.Fits (height : Nat) (b : Block) : Prop where
  announced : b.auxpow.isSome = b.header.announcesAuxpow height
  auxpow : ∀ ap ∈ b.auxpow, ap.Fits
  transactions : ∀ tx ∈ b.transactions, tx.Fits
  receipts : ∀ receipts ∈ b.poawxReceipts, ReceiptsFit receipts
  nonempty : ∀ receipts ∈ b.poawxReceipts, receipts ≠ []

/-- The transactions are followed by bytes in which the parser finds no further one. -/
theorem readBody_apply {txs : List Transaction} (htxs : ∀ tx ∈ txs, tx.Fits)
    (htail : ∀ fuel, tail.length ≤ fuel → readBody fuel tail = .ok (([], found), rest))
    (hfuel : (txs.flatMap Transaction.serialize ++ tail).length ≤ fuel) :
    readBody fuel (txs.flatMap Transaction.serialize ++ tail) = .ok ((txs, found), rest) := by
  induction txs generalizing fuel with
  | nil => exact htail fuel hfuel
  | cons tx txs ih =>
    obtain ⟨htx, htxs⟩ := List.forall_mem_cons.mp htxs
    rw [List.flatMap_cons, List.append_assoc] at hfuel ⊢
    have hpos := List.length_pos_of_ne_nil tx.serialize_ne_nil
    rw [List.length_append] at hfuel
    obtain ⟨fuel, rfl⟩ : ∃ n, fuel = n + 1 := ⟨fuel - 1, by omega⟩
    have hnil : tx.serialize ++ (txs.flatMap Transaction.serialize ++ tail) ≠ [] := by
      simp [tx.serialize_ne_nil]
    rw [readBody]
    dsimp only
    rw [if_neg hnil, reader_bind_of_ok (tx.not_receiptSection _)]
    dsimp only
    rw [(decodeFullTxAt_reads htx).bind_apply, reader_bind_of_ok (ih htxs (by omega))]
    rfl

theorem readBody_section {sec : Bytes} (hread : Reads tryParseReceiptSection sec (some receipts))
    (hfuel : (sec ++ rest).length ≤ fuel) :
    readBody fuel (sec ++ rest) = .ok (([], some receipts), rest) := by
  have hnil : sec ++ rest ≠ [] := by
    intro hempty
    have hparse := hread rest
    rw [hempty] at hparse
    cases hparse
  have hpos := List.length_pos_of_ne_nil hnil
  obtain ⟨fuel, rfl⟩ : ∃ n, fuel = n + 1 := ⟨fuel - 1, by omega⟩
  rw [readBody]
  dsimp only
  rw [if_neg hnil, hread.bind_apply]
  rfl

theorem readBody_receipts (hf : ∀ receipts ∈ b.poawxReceipts, ReceiptsFit receipts)
    (hne : ∀ receipts ∈ b.poawxReceipts, receipts ≠ []) (hfuel : (serializeReceiptSection b).length ≤ fuel) :
    readBody fuel (serializeReceiptSection b) = .ok (([], b.poawxReceipts), []) := by
  cases hr : b.poawxReceipts with
  | none =>
    simp only [serializeReceiptSection, hr]
    cases fuel <;> rfl
  | some receipts =>
    have hread := serializeReceiptSection_reads hr (hne receipts hr) (hf receipts hr)
    rw [← List.append_nil (serializeReceiptSection b)] at hfuel ⊢
    exact readBody_section hread hfuel

theorem readAuxpow_reads {auxpow : Option AuxPow} (h : ∀ ap ∈ auxpow, ap.Fits) :
    Reads (readAuxpow auxpow.isSome) (serializeOption AuxPow.serialize auxpow) auxpow := by
  cases auxpow with
  | none => exact reads_pure none
  | some ap =>
    have hread := (AuxPow.reader_reads (h ap rfl)).map some
    rwa [bind_pure_comp] at hread

theorem readAuxpow_yields (announced : Bool) : Yields (readAuxpow announced) fun auxpow =>
    auxpow.isSome = announced ∧ ∀ ap ∈ auxpow, ap.Fits := by
  cases announced with
  | false => exact yields_pure ⟨rfl, by simp⟩
  | true =>
    simp only [readAuxpow, ↓reduceIte, ← bind_pure_comp]
    exact AuxPow.reader_yields.bind fun ap hf => yields_pure ⟨rfl, by simpa using hf⟩

theorem Block.deserializeForHeight_tail (hann : b.auxpow.isSome = b.header.announcesAuxpow height)
    (hap : ∀ ap ∈ b.auxpow, ap.Fits) (htxs : ∀ tx ∈ b.transactions, tx.Fits)
    (htail : ∀ fuel, tail.length ≤ fuel → readBody fuel tail = .ok (([], found), rest)) :
    Block.deserializeForHeight E height (b.header.serializeForHeight E height ++
        serializeOption AuxPow.serialize b.auxpow ++ b.transactions.flatMap Transaction.serialize ++ tail) =
      .ok ({ b with poawxReceipts := found }, rest) := by
  rw [Block.deserializeForHeight]
  simp only [List.append_assoc]
  rw [(BlockHeader.deserializeForHeight_reads E b.header height).bind_apply, ← hann,
    (readAuxpow_reads hap).bind_apply]
  exact reader_bind_of_ok (r := fun raw => readBody raw.length raw) (readBody_apply htxs htail le_rfl) _

theorem Block.deserializeForHeight_serialize (h : b.Fits height) :
    Block.deserializeForHeight E height (b.serializeForHeight E height) = .ok (b, []) :=
  deserializeForHeight_tail h.announced h.auxpow h.transactions fun _ => readBody_receipts h.receipts h.nonempty

theorem Block.deserializeForHeight_yields : Yields (Block.deserializeForHeight E height) fun b =>
    b.auxpow.isSome = b.header.announcesAuxpow height ∧ (∀ ap ∈ b.auxpow, ap.Fits) ∧
      BodyFits (b.transactions, b.poawxReceipts) := by
  refine yields_bind fun header => (readAuxpow_yields _).bind fun auxpow hauxpow => ?_
  refine Yields.bind (fun raw => readBody_yields raw.length raw) fun body hbody => ?_
  exact yields_pure ⟨hauxpow.1, hauxpow.2, hbody⟩

theorem Block.serializeForHeight_empty (h : b.poawxReceipts = some []) :
    b.serializeForHeight E height = { b with poawxReceipts := none }.serializeForHeight E height := by
  simp [Block.serializeForHeight, serializeReceiptSection, h]

theorem Block.deserializeForHeight_serialize_iff :
    Block.deserializeForHeight E height (b.serializeForHeight E height) = .ok (b, []) ↔ b.Fits height := by
  refine ⟨fun h => ?_, Block.deserializeForHeight_serialize⟩
  obtain ⟨hann, hap, htxs, hrs⟩ := Block.deserializeForHeight_yields _ _ _ h
  refine ⟨hann, hap, htxs, hrs, fun receipts hr hnil => ?_⟩
  -- an empty list is written as none at all, and none is what is read back
  subst hnil
  have hbare : Block.Fits height { b with poawxReceipts := none } := ⟨hann, hap, htxs, by simp, by simp⟩
  rw [Block.serializeForHeight_empty hr, Block.deserializeForHeight_serialize hbare] at h
  have heq := congrArg (fun b => b.poawxReceipts) (Prod.mk.inj (Except.ok.inj h)).1
  rw [hr] at heq
  cases heq

structure Block.LengthsFit (height : Nat) (b : Block) : Prop where
  announced : b.auxpow.isSome = b.header.announcesAuxpow height
  auxpow : ∀ ap ∈ b.auxpow, ap.Fits
  transactions : ∀ tx ∈ b.transactions, tx.LengthsFit
  receipts : ∀ receipts ∈ b.poawxReceipts, ReceiptsFit receipts
  nonempty : ∀ receipts ∈ b.poawxReceipts, receipts ≠ []

instance (height : Nat) (b : Block) : Decidable (b.LengthsFit height) :=
  decidable_of_iff (_ ∧ _ ∧ _ ∧ _ ∧ _)
    ⟨fun h => ⟨h.1, h.2.1, h.2.2.1, h.2.2.2.1, h.2.2.2.2⟩,
      fun h => ⟨h.announced, h.auxpow, h.transactions, h.receipts, h.nonempty⟩⟩

namespace ChainState

variable {s s' : ChainState} {b : Block}

theorem connectBlock_fits_iff (hc : connectBlock C E A b s = (.ok (), s')) : b.Fits height ↔ b.LengthsFit height := by
  have hiff : ∀ tx ∈ b.transactions, (tx.Fits ↔ tx.LengthsFit) := fun tx htx => (AcceptsTx.inBlock hc htx).fits_iff
  constructor
  · rintro ⟨hann, hap, htxs, hrs, hne⟩
    exact ⟨hann, hap, fun tx htx => (hiff tx htx).mp (htxs tx htx), hrs, hne⟩
  · rintro ⟨hann, hap, htxs, hrs, hne⟩
    exact ⟨hann, hap, fun tx htx => (hiff tx htx).mpr (htxs tx htx), hrs, hne⟩

/-- An accepted block survives the wire exactly if its lengths fit and its AuxPoW data is where the version bit and the
height announce it. -/
theorem accepted_block_codec (hc : connectBlock C E A b s = (.ok (), s')) :
    Block.deserializeForHeight E s.height (b.serializeForHeight E s.height) = .ok (b, []) ↔ b.LengthsFit s.height :=
  Block.deserializeForHeight_serialize_iff.trans (connectBlock_fits_iff hc)

def withReceipts (receipts : List PoawxBlockReceipt) : Block :=
  { committeeBlock lockedGenesisHash 1767583931 1 with poawxReceipts := some receipts }

def plainReceipt : PoawxBlockReceipt := { receiptWith blankExt with phase20Ext := none }

def mixedBlock : Block := withReceipts [plainReceipt, receiptWith blankExt]

theorem mixed_block_decodes :
    ∃ s s', new shaCrypto devnetNode quietAmbient devnetParams = some s ∧
      connectBlock shaCrypto devnetNode quietAmbient mixedBlock s = (.ok (), s') ∧
      Block.deserializeForHeight devnetNode s.height (mixedBlock.serializeForHeight devnetNode s.height) =
        .ok (mixedBlock, []) := by
  obtain ⟨s, hs, hok, hfits⟩ := exists_of_any (new shaCrypto devnetNode quietAmbient devnetParams)
    (fun s => (connectBlock shaCrypto devnetNode quietAmbient mixedBlock s).1 = .ok () ∧
        mixedBlock.LengthsFit s.height) (by decide +kernel)
  obtain ⟨s', hc⟩ : ∃ s', connectBlock shaCrypto devnetNode quietAmbient mixedBlock s = (.ok (), s') :=
    ⟨_, Prod.ext hok rfl⟩
  exact ⟨s, s', hs, hc, (accepted_block_codec hc).mpr hfits⟩

/-- 256 receipts are written with the count byte 0. -/
theorem many_receipts_lost :
    ∃ s, new shaCrypto devnetNode quietAmbient devnetParams = some s ∧
      (connectBlock shaCrypto devnetNode quietAmbient (withReceipts (List.replicate 256 plainReceipt)) s).1 = .ok () ∧
      Block.deserializeForHeight devnetNode s.height
          ((withReceipts (List.replicate 256 plainReceipt)).serializeForHeight devnetNode s.height) ≠
        .ok (withReceipts (List.replicate 256 plainReceipt), []) := by
  obtain ⟨s, hs, hp⟩ := exists_of_any (new shaCrypto devnetNode quietAmbient devnetParams)
    (fun s => (connectBlock shaCrypto devnetNode quietAmbient (withReceipts (List.replicate 256 plainReceipt)) s).1 =
        .ok ()) (by decide +kernel)
  refine ⟨s, hs, hp, fun hd => ?_⟩
  have hlen := (Block.deserializeForHeight_serialize_iff.mp hd).receipts _ rfl
  have hcount := hlen.length
  rw [List.length_replicate] at hcount
  omega

end ChainState

end IriumConsensus
