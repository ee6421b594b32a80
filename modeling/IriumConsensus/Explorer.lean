import Mathlib.Algebra.Order.BigOperators.Group.List
import Mathlib.Algebra.Order.Ring.Nat
import IriumConsensus.BlockRelay
import IriumConsensus.Settlement.Anchor

namespace IriumConsensus

open ByteCodec

namespace Explorer

structure TxInput where
  prevTxid : String
  prevVout : UInt32
  scriptSig : Bytes
  sequence : UInt32
  deriving DecidableEq

structure TxOutput where
  value : Int64
  scriptPubkey : Bytes
  deriving DecidableEq

structure ParsedTx where
  txid : String
  version : Int32
  inputs : List TxInput
  outputs : List TxOutput
  locktime : UInt32
  deriving DecidableEq

section

-- The cursor is what is left of the `total` bytes; its position is the rest of them.
variable (total : Nat)

def Cursor.readBytes (n : Nat) : Reader Bytes := fun rest =>
  ByteCodec.readBytes n s!"unexpected end of tx bytes at pos={total - rest.length}, need {n}" rest

def Cursor.readU8 : Reader UInt8 := fun rest =>
  ByteCodec.readU8 s!"unexpected end of tx bytes reading u8 at pos={total - rest.length}" rest

def Cursor.readU16Le : Reader UInt16 := do
  let b ← Cursor.readBytes total 2
  return UInt16.ofNat (leNat b)

def Cursor.readU32Le : Reader UInt32 := do
  let b ← Cursor.readBytes total 4
  return UInt32.ofNat (leNat b)

def Cursor.readU64Le : Reader UInt64 := do
  let b ← Cursor.readBytes total 8
  return UInt64.ofNat (leNat b)

def Cursor.readI32Le : Reader Int32 := do
  let x ← Cursor.readU32Le total
  return x.toInt32

def Cursor.readI64Le : Reader Int64 := do
  let x ← Cursor.readU64Le total
  return x.toInt64

def Cursor.readVarint : Reader Nat := do
  let tag ← Cursor.readU8 total
  if tag = 0xfd then return (← Cursor.readU16Le total).toNat
  else if tag = 0xfe then return (← Cursor.readU32Le total).toNat
  else if tag = 0xff then return (← Cursor.readU64Le total).toNat
  else return tag.toNat

def readInput : Reader TxInput := do
  let txidLen ← Cursor.readU8 total
  if txidLen ≠ 32 then throw s!"unexpected prev_txid length prefix {txidLen}, expected 32"
  else
    let prevTxidBytes ← Cursor.readBytes total 32
    let prevVout ← Cursor.readU32Le total
    let scriptLen ← Cursor.readVarint total
    let scriptSig ← Cursor.readBytes total scriptLen
    let sequence ← Cursor.readU32Le total
    return ⟨encodeHex prevTxidBytes.reverse, prevVout, scriptSig, sequence⟩

def readOutput : Reader TxOutput := do
  let value ← Cursor.readI64Le total
  let scriptLen ← Cursor.readVarint total
  let scriptPubkey ← Cursor.readBytes total scriptLen
  return ⟨value, scriptPubkey⟩

end

variable (C : Crypto)

def parseTx (bytes : Bytes) : Reader ParsedTx := do
  let version ← Cursor.readI32Le bytes.length
  let inCount ← Cursor.readVarint bytes.length
  let inputs ← readMany (readInput bytes.length) inCount
  let outCount ← Cursor.readVarint bytes.length
  let outputs ← readMany (readOutput bytes.length) outCount
  let locktime ← Cursor.readU32Le bytes.length
  return ⟨encodeHex (sha256d C bytes).reverse.bytes, version, inputs, outputs, locktime⟩

/-- What is left after the lock time is not looked at. -/
def decodeTx (hexStr : String) : Except String ParsedTx :=
  match decodeHex (trimText hexStr) with
  | some bytes => (parseTx C bytes bytes).map Prod.fst
  | none => .error "invalid hex in tx"

inductive AgrAnchorType where
  | fund
  | release
  | refund
  | milestoneRelease
  | disputeResolve
  deriving DecidableEq

structure AgrAnchor where
  anchorType : AgrAnchorType
  agreementHash : String
  milestoneId : Option String
  deriving DecidableEq

def AgrAnchorType.ofByte (b : UInt8) : Option AgrAnchorType :=
  if b = 0x66 then some fund
  else if b = 0x6c then some release
  else if b = 0x72 then some refund
  else if b = 0x6d then some milestoneRelease
  else if b = 0x78 then some disputeResolve
  else none

def isAsciiHexdigit (b : UInt8) : Bool :=
  (0x30 ≤ b && b ≤ 0x39) || (0x41 ≤ b && b ≤ 0x46) || (0x61 ≤ b && b ≤ 0x66)

def parseMilestone (data : Bytes) : Option String :=
  if 72 < data.length ∧ data[71]? = some 0x3a then
    ((fromUtf8 (data.drop 72)).map fun cs => String.ofList (cs.filter fun c => c.toNat ≠ 0)).filter fun s => s ≠ ""
  else none

def parseAgrAnchor (data : Bytes) : Option AgrAnchor :=
  if data.length < 71 then none
  else if data.take 5 ≠ asciiBytes "agr1:" then none
  else if data[6]? ≠ some 0x3a then none
  else if !((data.drop 7).take 64).all isAsciiHexdigit then none
  else do
    let agreementHash ← fromUtf8 ((data.drop 7).take 64)
    let anchorType ← AgrAnchorType.ofByte (data.getD 5 0)
    return ⟨anchorType, String.ofList agreementHash, parseMilestone data⟩

def parseOpReturnData (script : Bytes) : Bytes :=
  match script with
  | _ :: declaredLen :: rest => rest.take declaredLen.toNat
  | _ => []

/-- The anchor in the class of an output that starts with `OP_RETURN`. -/
def opReturnAnchor (script : Bytes) : Option AgrAnchor :=
  if script.head? = some 0x6a then parseAgrAnchor (parseOpReturnData script) else none

section

variable (total : Nat) {n w : Nat} {bs rest : Bytes} {α : Type}

theorem readBytes_reads (bs : Bytes) : Reads (Cursor.readBytes total bs.length) bs bs :=
  fun rest => ByteCodec.readBytes_reads bs _ rest

theorem readU8_reads (b : UInt8) : Reads (Cursor.readU8 total) [b] b := fun _ => rfl

theorem readLe_reads (f : Nat → α) {x : Nat} (h : x < 256 ^ w) :
    Reads (do let b ← Cursor.readBytes total w; return f (leNat b)) (leList w x) (f x) := by
  have hread := readBytes_reads total (leList w x)
  rw [leList_length] at hread
  have hmap := hread.map fun b => f (leNat b)
  rwa [leNat_leList, Nat.mod_eq_of_lt h] at hmap

theorem readU16Le_reads (x : UInt16) : Reads (Cursor.readU16Le total) (le16 x) x := by
  have h := readLe_reads total UInt16.ofNat (w := 2) x.toNat_lt
  rwa [UInt16.ofNat_toNat] at h

theorem readU32Le_reads (x : UInt32) : Reads (Cursor.readU32Le total) (le32 x) x := by
  have h := readLe_reads total UInt32.ofNat (w := 4) x.toNat_lt
  rwa [UInt32.ofNat_toNat] at h

theorem readU64Le_reads (x : UInt64) : Reads (Cursor.readU64Le total) (le64 x) x := by
  have h := readLe_reads total UInt64.ofNat (w := 8) x.toNat_lt
  rwa [UInt64.ofNat_toNat] at h

theorem readI32Le_reads (x : UInt32) : Reads (Cursor.readI32Le total) (le32 x) x.toInt32 :=
  (readU32Le_reads total x).map UInt32.toInt32

theorem readI64Le_reads (x : UInt64) : Reads (Cursor.readI64Le total) (le64 x) x.toInt64 :=
  (readU64Le_reads total x).map UInt64.toInt64

theorem readVarint_eq {err : String} (hread : readVarint err bs = .ok (n, rest)) :
    Cursor.readVarint total bs = .ok (n, rest) := by
  obtain ⟨tag, mid, htag, hrest⟩ := reader_bind_eq_ok.mp hread
  rw [readU8_ok] at htag
  subst htag
  rw [Cursor.readVarint, ← List.singleton_append, (readU8_reads total tag).bind_apply]
  split_ifs at hrest with hff hfe hfd
  · obtain ⟨x, mid, hx, hn⟩ := reader_bind_eq_ok.mp hrest
    cases hn
    rw [readU64_ok.mp hx, hff]
    exact ((readU64Le_reads total x).map UInt64.toNat) rest
  · obtain ⟨x, mid, hx, hn⟩ := reader_bind_eq_ok.mp hrest
    cases hn
    rw [readU32_ok.mp hx, hfe]
    exact ((readU32Le_reads total x).map UInt32.toNat) rest
  · obtain ⟨x, mid, hx, hn⟩ := reader_bind_eq_ok.mp hrest
    cases hn
    rw [readU16_ok.mp hx, hfd]
    exact ((readU16Le_reads total x).map UInt16.toNat) rest
  · cases hrest
    rw [if_neg hfd, if_neg hfe, if_neg hff]
    rfl

theorem readVarint_byte {b : UInt8} (h : b.toNat < 0xfd) : Reads (Cursor.readVarint total) [b] b.toNat := by
  have hne : ∀ tag : UInt8, 0xfd ≤ tag.toNat → b ≠ tag := by
    rintro tag htag rfl
    omega
  intro rest
  rw [Cursor.readVarint, (readU8_reads total b).bind_apply, if_neg (hne 0xfd (by decide)), if_neg (hne 0xfe (by decide)),
    if_neg (hne 0xff (by decide)), reader_pure]

def seenOutput (out : IriumConsensus.TxOutput) : TxOutput := ⟨out.value.toInt64, out.scriptPubkey⟩

theorem readOutput_follows : Follows readTxOutput (readOutput total) (fun _ => True) seenOutput := by
  intro bs out rest hread _
  obtain ⟨value, r1, hvalue, hread⟩ := reader_bind_eq_ok.mp hread
  obtain ⟨len, r2, hlen, hread⟩ := reader_bind_eq_ok.mp hread
  obtain ⟨script, r3, hscript, hread⟩ := reader_bind_eq_ok.mp hread
  cases hread
  obtain ⟨rfl, rfl⟩ := readBytes_ok.mp hscript
  rw [readU64_ok.mp hvalue, readOutput, (readI64Le_reads total value).bind_apply,
    reader_bind_of_ok (readVarint_eq total hlen), (readBytes_reads total script).bind_apply, reader_pure]
  rfl

def seenInput (inp : IriumConsensus.TxInput) : TxInput :=
  ⟨encodeHex inp.prevTxid.reverse.bytes, inp.prevIndex, inp.scriptSig, inp.sequence⟩

theorem readInput_follows :
    Follows readTxInput (readInput total) (fun inp => inp.scriptSig.length < 0xfd) seenInput := by
  intro bs inp rest hread hshort
  obtain ⟨txidLen, r1, htxidLen, hread⟩ := reader_bind_eq_ok.mp hread
  obtain ⟨txid, r2, htxid, hread⟩ := reader_bind_eq_ok.mp hread
  split_ifs at hread with h32
  · obtain ⟨index, r3, hindex, hread⟩ := reader_bind_eq_ok.mp hread
    obtain ⟨len, r4, hlen, hread⟩ := reader_bind_eq_ok.mp hread
    obtain ⟨script, r5, hscript, hread⟩ := reader_bind_eq_ok.mp hread
    obtain ⟨sequence, r6, hsequence, hread⟩ := reader_bind_eq_ok.mp hread
    cases hread
    obtain ⟨hlenTxid, rfl⟩ := readBytes_ok.mp htxid
    obtain ⟨hlenScript, rfl⟩ := readBytes_ok.mp hscript
    have h20 : txidLen = 32 := UInt8.toNat_inj.mp (hlenTxid.symm.trans h32)
    have hvarint := readVarint_byte total (hlenScript ▸ hshort)
    have htxidReads := readBytes_reads total txid
    have hscriptReads := readBytes_reads total script
    rw [h32] at htxidReads
    rw [hlenScript] at hscriptReads
    rw [readU8_ok.mp htxidLen, readU32_ok.mp hindex, readU8_ok.mp hlen, readU32_ok.mp hsequence, readInput,
      ← List.singleton_append, (readU8_reads total txidLen).bind_apply, if_neg (not_not.mpr h20), htxidReads.bind_apply,
      (readU32Le_reads total index).bind_apply, ← List.singleton_append, hvarint.bind_apply, hscriptReads.bind_apply,
      (readU32Le_reads total sequence).bind_apply, reader_pure]
    rfl
  · cases hread

theorem readBytes_takes {xs : Bytes} (h : Cursor.readBytes total n bs = .ok (xs, rest)) :
    xs.length = n ∧ bs.length = n + rest.length := by
  obtain ⟨hlen, rfl⟩ := readBytes_ok.mp h
  exact ⟨hlen, by rw [List.length_append, hlen]⟩

theorem readLe_takes {f : Nat → α} {x : α}
    (h : (do let b ← Cursor.readBytes total w; return f (leNat b) : Reader α) bs = .ok (x, rest)) :
    bs.length = w + rest.length := by
  obtain ⟨b, mid, hb, h⟩ := reader_bind_eq_ok.mp h
  cases h
  exact (readBytes_takes total hb).2

theorem readVarint_takes : Takes (Cursor.readVarint total) varintSize := by
  intro bs n rest h
  obtain ⟨tag, mid, htag, h⟩ := reader_bind_eq_ok.mp h
  have hbs : bs.length = mid.length + 1 := congrArg List.length (readU8_ok.mp htag)
  unfold varintSize
  split_ifs at h with hfd hfe hff
  · obtain ⟨x, mid', hx, h⟩ := reader_bind_eq_ok.mp h
    cases h
    have hlen := readLe_takes total hx
    have hlt := x.toNat_lt
    split_ifs <;> omega
  · obtain ⟨x, mid', hx, h⟩ := reader_bind_eq_ok.mp h
    cases h
    have hlen := readLe_takes total hx
    have hlt := x.toNat_lt
    split_ifs <;> omega
  · obtain ⟨x, mid', hx, h⟩ := reader_bind_eq_ok.mp h
    cases h
    have hlen := readLe_takes total hx
    split_ifs <;> omega
  · cases h
    have hlt := tag.toNat_lt
    have hne : ∀ mark : UInt8, tag ≠ mark → tag.toNat ≠ mark.toNat := fun _ hne heq => hne (UInt8.toNat_inj.mp heq)
    have h1 : tag.toNat ≠ 253 := hne _ hfd
    have h2 : tag.toNat ≠ 254 := hne _ hfe
    have h3 : tag.toNat ≠ 255 := hne _ hff
    split_ifs <;> omega

theorem readOutput_takes :
    Takes (readOutput total) fun o => 8 + varintSize o.scriptPubkey.length + o.scriptPubkey.length := by
  intro bs out rest h
  obtain ⟨value, r1, hvalue, h⟩ := reader_bind_eq_ok.mp h
  obtain ⟨len, r2, hlen, h⟩ := reader_bind_eq_ok.mp h
  obtain ⟨script, r3, hscript, h⟩ := reader_bind_eq_ok.mp h
  cases h
  obtain ⟨x, mid, hx, hvalue⟩ := reader_bind_eq_ok.mp hvalue
  cases hvalue
  have hvalue := readLe_takes total hx
  have hlen := readVarint_takes total _ _ _ hlen
  obtain ⟨rfl, hscript⟩ := readBytes_takes total hscript
  dsimp only
  omega

theorem readInput_takes :
    Takes (readInput total) fun i => 41 + varintSize i.scriptSig.length + i.scriptSig.length := by
  intro bs inp rest h
  obtain ⟨txidLen, r1, htxidLen, h⟩ := reader_bind_eq_ok.mp h
  split_ifs at h
  · cases h
  · obtain ⟨txid, r2, htxid, h⟩ := reader_bind_eq_ok.mp h
    obtain ⟨index, r3, hindex, h⟩ := reader_bind_eq_ok.mp h
    obtain ⟨len, r4, hlen, h⟩ := reader_bind_eq_ok.mp h
    obtain ⟨script, r5, hscript, h⟩ := reader_bind_eq_ok.mp h
    obtain ⟨sequence, r6, hsequence, h⟩ := reader_bind_eq_ok.mp h
    cases h
    have htxidLen : bs.length = r1.length + 1 := congrArg List.length (readU8_ok.mp htxidLen)
    have htxid := (readBytes_takes total htxid).2
    have hindex := readLe_takes total hindex
    have hlen := readVarint_takes total _ _ _ hlen
    have hsequence := readLe_takes total hsequence
    obtain ⟨rfl, hscript⟩ := readBytes_takes total hscript
    dsimp only
    omega

end

/-- The counts and the lengths that the node writes as one byte are not the marks of a longer number. -/
structure ShortCounts (tx : Transaction) : Prop where
  inputs : tx.inputs.length < 0xfd
  outputs : tx.outputs.length < 0xfd
  scriptSig : ∀ inp ∈ tx.inputs, inp.scriptSig.length < 0xfd

def seenTx (raw : Bytes) (tx : Transaction) : ParsedTx :=
  ⟨encodeHex (sha256d C raw).reverse.bytes, tx.version.toInt32, tx.inputs.map seenInput, tx.outputs.map seenOutput,
    tx.locktime⟩

variable {C} {raw rest : Bytes} {tx : Transaction} {n : Nat} {p : ParsedTx}

theorem parseTx_eq (hnode : decodeFullTx raw = .ok tx) (h : ShortCounts tx) :
    parseTx C raw raw = .ok (seenTx C raw tx, []) := by
  obtain ⟨version, r1, hversion, hread⟩ := reader_bind_eq_ok.mp (decodeFullTx_eq_ok.mp hnode)
  obtain ⟨inCount, r2, hinCount, hread⟩ := reader_bind_eq_ok.mp hread
  obtain ⟨inputs, r3, hinputs, hread⟩ := reader_bind_eq_ok.mp hread
  obtain ⟨outCount, r4, houtCount, hread⟩ := reader_bind_eq_ok.mp hread
  obtain ⟨outputs, r5, houtputs, hread⟩ := reader_bind_eq_ok.mp hread
  obtain ⟨locktime, r6, hlocktime, hread⟩ := reader_bind_eq_ok.mp hread
  cases hread
  have hin := (readTxInput_yields.readMany _ _ _ _ hinputs).1
  have hout := (readTxOutput_yields.readMany _ _ _ _ houtputs).1
  -- each reader of the explorer, from where the node's starts
  have hversion' : Cursor.readI32Le raw.length raw = .ok (version.toInt32, r1) :=
    (congrArg _ (readU32_ok.mp hversion)).trans (readI32Le_reads _ version r1)
  have hinCount' : Cursor.readVarint raw.length r1 = .ok (inCount.toNat, r2) :=
    (congrArg _ (readU8_ok.mp hinCount)).trans (readVarint_byte _ (hin ▸ h.inputs) r2)
  have hinputs' := (readInput_follows raw.length).readMany _ _ _ _ hinputs h.scriptSig
  have houtCount' : Cursor.readVarint raw.length r3 = .ok (outCount.toNat, r4) :=
    (congrArg _ (readU8_ok.mp houtCount)).trans (readVarint_byte _ (hout ▸ h.outputs) r4)
  have houtputs' := (readOutput_follows raw.length).readMany _ _ _ _ houtputs fun _ _ => trivial
  have hlocktime' : Cursor.readU32Le raw.length r5 = .ok (locktime, []) :=
    (congrArg _ (readU32_ok.mp hlocktime)).trans (readU32Le_reads _ locktime [])
  rw [parseTx, reader_bind_of_ok hversion', reader_bind_of_ok hinCount', reader_bind_of_ok hinputs',
    reader_bind_of_ok houtCount', reader_bind_of_ok houtputs', reader_bind_of_ok hlocktime', reader_pure]
  rfl

theorem isWhiteSpace_hexDigit (h : n < 16) : isWhiteSpace (hexDigit n) = false := by
  revert n
  decide

theorem hexByte_not_white (b : UInt8) : ∀ c ∈ hexByte b, isWhiteSpace c = false := by
  have hb := b.toNat_lt
  simp only [hexByte, List.forall_mem_cons, List.not_mem_nil, false_imp_iff, implies_true, and_true]
  exact ⟨isWhiteSpace_hexDigit (by omega), isWhiteSpace_hexDigit (by omega)⟩

theorem trimText_encodeHex (bs : Bytes) : trimText (encodeHex bs) = encodeHex bs := by
  have hnone : ∀ c ∈ bs.flatMap hexByte, ¬ isWhiteSpace c := by
    intro c hc
    obtain ⟨b, _, hc⟩ := List.mem_flatMap.mp hc
    simp [hexByte_not_white b c hc]
  have hrev : ∀ c ∈ (bs.flatMap hexByte).reverse, ¬ isWhiteSpace c :=
    fun c hc => hnone c (List.mem_reverse.mp hc)
  have hdrop : ∀ {cs : List Char}, (∀ c ∈ cs, ¬ isWhiteSpace c) → cs.dropWhile isWhiteSpace = cs := by
    intro cs h
    cases cs with
    | nil => rfl
    | cons c cs => exact List.dropWhile_cons_of_neg (h c List.mem_cons_self)
  rw [trimText, encodeHex, String.toList_ofList, hdrop hnone, hdrop hrev, List.reverse_reverse]

theorem decodeTx_eq (hnode : decodeFullTx raw = .ok tx) (h : ShortCounts tx) :
    decodeTx C (encodeHex raw) = .ok (seenTx C raw tx) := by
  simp only [decodeTx, trimText_encodeHex, decodeHex_encodeHex, parseTx_eq hnode h]
  rfl

structure ParsedTx.Agrees (C : Crypto) (p : ParsedTx) (tx : Transaction) : Prop where
  txid : p.txid = encodeHex (tx.txid C).bytes
  inputs : p.inputs.map (fun i => (i.prevTxid, i.prevVout, i.scriptSig, i.sequence)) =
    tx.inputs.map fun i => (encodeHex i.prevTxid.bytes, i.prevIndex, i.scriptSig, i.sequence)
  outputs : p.outputs.map (fun o => (o.value.toInt, o.scriptPubkey)) =
    tx.outputs.map fun o => ((o.value.toNat : Int), o.scriptPubkey)
  locktime : p.locktime = tx.locktime

theorem encodeHex_inj {as bs : Bytes} : encodeHex as = encodeHex bs ↔ as = bs := by
  refine ⟨fun h => ?_, congrArg _⟩
  have hdecode := decodeHex_encodeHex as
  rw [h, decodeHex_encodeHex] at hdecode
  exact (Option.some.inj hdecode).symm

theorem toInt64_toInt_iff (x : UInt64) : x.toInt64.toInt = x.toNat ↔ x.toNat < 2 ^ 63 := by
  have hmod : x.toInt64.toInt = (x.toNat : Int).bmod (2 ^ 64) := by
    rw [Int64.toInt, UInt64.toBitVec_toInt64, BitVec.toInt_eq_toNat_bmod, UInt64.toNat_toBitVec]
  have hlt := x.toNat_lt
  rw [hmod, Int.bmod_def]
  omega

theorem encodeHex_txid :
    encodeHex (sha256d C raw).reverse.bytes = encodeHex (tx.txid C).bytes ↔ sha256d C raw = sha256d C tx.serialize := by
  rw [encodeHex_inj, ByteVec.ext_iff.symm, Transaction.txid, ByteVec.reverse_injective.eq_iff]

theorem seenTx_agrees_iff : (seenTx C raw tx).Agrees C tx ↔
    (∀ inp ∈ tx.inputs, inp.prevTxid.reverse = inp.prevTxid) ∧ (∀ out ∈ tx.outputs, out.value.toNat < 2 ^ 63) ∧
      sha256d C raw = sha256d C tx.serialize := by
  have hinputs : (tx.inputs.map seenInput).map (fun i => (i.prevTxid, i.prevVout, i.scriptSig, i.sequence)) =
      tx.inputs.map (fun i => (encodeHex i.prevTxid.bytes, i.prevIndex, i.scriptSig, i.sequence)) ↔
      ∀ inp ∈ tx.inputs, inp.prevTxid.reverse = inp.prevTxid := by
    simp [seenInput, encodeHex_inj, ByteVec.ext_iff]
  have houtputs : (tx.outputs.map seenOutput).map (fun o => (o.value.toInt, o.scriptPubkey)) =
      tx.outputs.map (fun o => ((o.value.toNat : Int), o.scriptPubkey)) ↔
      ∀ out ∈ tx.outputs, out.value.toNat < 2 ^ 63 := by
    simp [seenOutput, toInt64_toInt_iff]
  exact ⟨fun h => ⟨hinputs.mp h.inputs, houtputs.mp h.outputs, encodeHex_txid.mp h.txid⟩,
    fun h => ⟨encodeHex_txid.mpr h.2.2, hinputs.mpr h.1, houtputs.mpr h.2.1, rfl⟩⟩

theorem parseTx_takes {bytes : Bytes} (h : parseTx C bytes bytes = .ok (p, rest)) :
    p.txid = encodeHex (sha256d C bytes).reverse.bytes ∧
      8 + varintSize p.inputs.length + varintSize p.outputs.length +
        (p.inputs.map fun i => 41 + varintSize i.scriptSig.length + i.scriptSig.length).sum +
        (p.outputs.map fun o => 8 + varintSize o.scriptPubkey.length + o.scriptPubkey.length).sum ≤ bytes.length := by
  obtain ⟨version, r1, hversion, h⟩ := reader_bind_eq_ok.mp h
  obtain ⟨inCount, r2, hinCount, h⟩ := reader_bind_eq_ok.mp h
  obtain ⟨inputs, r3, hinputs, h⟩ := reader_bind_eq_ok.mp h
  obtain ⟨outCount, r4, houtCount, h⟩ := reader_bind_eq_ok.mp h
  obtain ⟨outputs, r5, houtputs, h⟩ := reader_bind_eq_ok.mp h
  obtain ⟨locktime, r6, hlocktime, h⟩ := reader_bind_eq_ok.mp h
  cases h
  obtain ⟨x, mid, hx, hversion⟩ := reader_bind_eq_ok.mp hversion
  cases hversion
  have hversion := readLe_takes _ hx
  have hinCount := readVarint_takes _ _ _ _ hinCount
  have houtCount := readVarint_takes _ _ _ _ houtCount
  have hlocktime := readLe_takes _ hlocktime
  have hin := ((yields_true _).readMany _ _ _ _ hinputs).1
  have hout := ((yields_true _).readMany _ _ _ _ houtputs).1
  have hinputs := (readInput_takes _).readMany _ _ _ _ hinputs
  have houtputs := (readOutput_takes _).readMany _ _ _ _ houtputs
  refine ⟨rfl, ?_⟩
  dsimp only at hinputs houtputs ⊢
  rw [hin, hout]
  omega

theorem one_le_varintSize (n : Nat) : 1 ≤ varintSize n := by
  unfold varintSize
  split_ifs <;> omega

theorem one_lt_varintSize (h : ¬n < 0xfd) : 1 < varintSize n := by
  unfold varintSize
  rw [if_neg h]
  split_ifs <;> omega

/-- Longer numbers would take bytes that the node's encoding does not have. -/
theorem shortCounts_of_agrees (hparse : parseTx C tx.serialize tx.serialize = .ok (p, rest)) (h : p.Agrees C tx) :
    ShortCounts tx := by
  have hin : p.inputs.map TxInput.scriptSig = tx.inputs.map IriumConsensus.TxInput.scriptSig := by
    simpa [Function.comp_def] using congrArg (List.map fun i => i.2.2.1) h.inputs
  have hout : p.outputs.map TxOutput.scriptPubkey = tx.outputs.map IriumConsensus.TxOutput.scriptPubkey := by
    simpa [Function.comp_def] using congrArg (List.map Prod.snd) h.outputs
  have hlenIn : p.inputs.length = tx.inputs.length := by simpa using congrArg List.length hin
  have hlenOut : p.outputs.length = tx.outputs.length := by simpa using congrArg List.length hout
  have hsumIn := congrArg (fun l => (l.map fun s : Bytes => 41 + varintSize s.length + s.length).sum) hin
  have hsumOut := congrArg (fun l => (l.map fun s : Bytes => 8 + varintSize s.length + s.length).sum) hout
  simp only [List.map_map, Function.comp_def] at hsumIn hsumOut
  have htake := (parseTx_takes hparse).2
  rw [hlenIn, hlenOut, hsumIn, hsumOut, Transaction.serialize_length, Transaction.wireSize] at htake
  have hle : ∀ i ∈ tx.inputs, i.wireSize ≤ 41 + varintSize i.scriptSig.length + i.scriptSig.length := fun i _ => by
    have := one_le_varintSize i.scriptSig.length
    rw [TxInput.wireSize]
    omega
  have hsum := List.sum_le_sum hle
  have hcountIn := one_le_varintSize tx.inputs.length
  have hcountOut := one_le_varintSize tx.outputs.length
  rw [show TxOutput.wireSize = fun o => 8 + varintSize o.scriptPubkey.length + o.scriptPubkey.length from rfl] at htake
  refine ⟨?_, ?_, fun i hi => ?_⟩
  · by_contra hlong
    have := one_lt_varintSize hlong
    omega
  · by_contra hlong
    have := one_lt_varintSize hlong
    omega
  · by_contra hlong
    have hlt := List.sum_lt_sum _ _ hle ⟨i, hi, by
      have := one_lt_varintSize hlong
      rw [TxInput.wireSize]
      omega⟩
    omega

section

variable {c : Char} {d : Nat}

theorem hexValue_bounds (h : hexValue c = some d) :
    c.toNat < 58 ∨ 64 < c.toNat ∧ c.toNat < 127 := by
  unfold hexValue at h
  split_ifs at h with h1 h2 h3
  · exact .inl (Nat.lt_succ_of_le h1.2)
  · exact .inr ⟨lt_of_lt_of_le (by decide) h2.1, lt_of_le_of_lt h2.2 (by decide)⟩
  · exact .inr ⟨h3.1, lt_of_le_of_lt h3.2 (by decide)⟩

theorem utf8EncodeChar_hex (h : hexValue c = some d) :
    ∃ b : UInt8, String.utf8EncodeChar c = [b] ∧ b ≠ 0x3a := by
  have hc := hexValue_bounds h
  refine ⟨UInt8.ofNat c.toNat, if_pos (by change c.toNat ≤ 127; omega), fun he => ?_⟩
  have hn := congrArg UInt8.toNat he
  rw [UInt8.toNat_ofNat', Nat.mod_eq_of_lt (by omega)] at hn
  change c.toNat = 58 at hn
  omega

theorem utf8_append (s t : String) : utf8 (s ++ t) = utf8 s ++ utf8 t := by
  simp [utf8]

variable {anchor : AgreementAnchor} {payload : Bytes} {out : IriumConsensus.TxOutput}

/-- The second digit of the hash stands where the explorer looks for the colon after the type. -/
theorem payload_hash (h : buildAgreementAnchorPayload anchor = .ok payload) :
    payload.length ≤ 75 ∧ payload[6]? ≠ some 0x3a := by
  unfold buildAgreementAnchorPayload at h
  extract_lets built at h
  split_ifs at h with hhash hlong
  rw [← Except.ok.inj h]
  refine ⟨Nat.not_lt.mp hlong, ?_⟩
  obtain ⟨hlen, hhex⟩ := not_or.mp hhash
  have hutf : (utf8 anchor.agreementHash).length = 64 := not_not.mp hlen
  obtain ⟨bs, hbs⟩ := Option.ne_none_iff_exists'.mp hhex
  obtain ⟨c0, c1, cs, hcs⟩ : ∃ c0 c1 cs, anchor.agreementHash.toList = c0 :: c1 :: cs := by
    rw [decodeHex] at hbs
    rw [utf8] at hutf
    cases hchars : anchor.agreementHash.toList with
    | nil => simp [hchars] at hutf
    | cons c0 rest =>
      cases rest with
      | nil => simp [hchars, decodeHexChars] at hbs
      | cons c1 cs => exact ⟨c0, c1, cs, rfl⟩
  rw [decodeHex, hcs, decodeHexChars] at hbs
  obtain ⟨d0, hd0, hbs⟩ := Option.bind_eq_some_iff.mp hbs
  obtain ⟨d1, hd1, -⟩ := Option.bind_eq_some_iff.mp hbs
  obtain ⟨b0, hb0, -⟩ := utf8EncodeChar_hex hd0
  obtain ⟨b1, hb1, hcolon⟩ := utf8EncodeChar_hex hd1
  have hprefix : utf8 "agr1:" = [0x61, 0x67, 0x72, 0x31, 0x3a] := by decide
  have hstart : utf8 anchor.agreementHash = b0 :: b1 :: cs.flatMap String.utf8EncodeChar := by
    rw [utf8, hcs, List.flatMap_cons, List.flatMap_cons, hb0, hb1]
    rfl
  simp only [built, utf8_append, hprefix, hstart, List.cons_append]
  exact fun he => hcolon (Option.some.inj he)

theorem parseAgrAnchor_built (h : buildAgreementAnchorPayload anchor = .ok payload) : parseAgrAnchor payload = none := by
  unfold parseAgrAnchor
  split_ifs with h1 h2 h3 h4
  · rfl
  · rfl
  · rfl
  · rfl
  · exact absurd (not_not.mp h3) (payload_hash h).2

theorem opReturnAnchor_built (h : buildAgreementAnchorOutput anchor = .ok out) :
    opReturnAnchor out.scriptPubkey = none := by
  unfold buildAgreementAnchorOutput at h
  cases hpayload : buildAgreementAnchorPayload anchor with
  | error e =>
    rw [hpayload] at h
    cases h
  | ok payload =>
    rw [hpayload] at h
    cases h
    have hlen := (payload_hash hpayload).1
    have htake : parseOpReturnData (0x6a :: UInt8.ofNat payload.length :: payload) = payload := by
      refine List.take_of_length_le ?_
      rw [UInt8.toNat_ofNat', Nat.mod_eq_of_lt (by omega)]
    rw [opReturnAnchor, htake, parseAgrAnchor_built hpayload, ite_self]

def AgrAnchorType.role : AgrAnchorType → AgreementAnchorRole
  | fund => .funding
  | release => .release
  | refund => .refund
  | milestoneRelease => .milestoneRelease
  | disputeResolve => .disputeResolve

/-- The two parsers tell the same hash and role. -/
def AnchorAgrees (script : Bytes) : Prop :=
  (opReturnAnchor script).map (fun a => (a.agreementHash, a.anchorType.role)) =
    (parseAgreementAnchor script).map fun a => (a.agreementHash, a.role)

theorem anchorAgrees_iff (h : buildAgreementAnchorOutput anchor = .ok out) :
    AnchorAgrees out.scriptPubkey ↔ parseAgreementAnchor out.scriptPubkey = none := by
  rw [AnchorAgrees, opReturnAnchor_built h, Option.map_none, eq_comm, Option.map_eq_none_iff]

end

theorem decodeTx_agrees_iff (hnode : decodeFullTx raw = .ok tx)
    (hinj : sha256d C raw = sha256d C tx.serialize → raw = tx.serialize) :
    (∃ p, decodeTx C (encodeHex raw) = .ok p ∧ p.Agrees C tx) ↔
      raw = tx.serialize ∧ ShortCounts tx ∧ (∀ inp ∈ tx.inputs, inp.prevTxid.reverse = inp.prevTxid) ∧
        ∀ out ∈ tx.outputs, out.value.toNat < 2 ^ 63 := by
  constructor
  · rintro ⟨p, hp, h⟩
    have hp' := hp
    simp only [decodeTx, trimText_encodeHex, decodeHex_encodeHex] at hp'
    obtain ⟨rest, hparse⟩ := decode_eq_ok hp'
    have htxid := (parseTx_takes hparse).1.symm.trans h.txid
    obtain rfl := hinj (encodeHex_txid.mp htxid)
    have hshort := shortCounts_of_agrees hparse h
    rw [decodeTx_eq hnode hshort] at hp
    cases hp
    obtain ⟨htxids, hvalues, -⟩ := seenTx_agrees_iff.mp h
    exact ⟨rfl, hshort, htxids, hvalues⟩
  · rintro ⟨rfl, hshort, htxids, hvalues⟩
    exact ⟨_, decodeTx_eq hnode hshort, seenTx_agrees_iff.mpr ⟨htxids, hvalues, rfl⟩⟩

/-- What the explorer makes of the node's bytes. It tells the same transaction exactly if these are the node's own
encoding, no count or length in them is the mark of a longer number, each spent id reads the same from both ends and the
values fit a signed number. The anchors that the node builds it does not see. -/
theorem explorer_agrees_iff (C : Crypto) :
    (∀ raw tx, decodeFullTx raw = .ok tx → (sha256d C raw = sha256d C tx.serialize → raw = tx.serialize) →
      ((∃ parsed, decodeTx C (encodeHex raw) = .ok parsed ∧ parsed.Agrees C tx) ↔
        raw = tx.serialize ∧ ShortCounts tx ∧ (∀ inp ∈ tx.inputs, inp.prevTxid.reverse = inp.prevTxid) ∧
          ∀ out ∈ tx.outputs, out.value.toNat < 2 ^ 63)) ∧
    ∀ anchor out, buildAgreementAnchorOutput anchor = .ok out →
      (AnchorAgrees out.scriptPubkey ↔ parseAgreementAnchor out.scriptPubkey = none) :=
  ⟨fun _ _ => decodeTx_agrees_iff, fun _ _ => anchorAgrees_iff⟩

theorem explorer_agrees_coinbase :
    ∃ parsed, decodeTx shaCrypto (encodeHex ChainState.shortCoinbase.serialize) = .ok parsed ∧
      parsed.Agrees shaCrypto ChainState.shortCoinbase := by
  have hnode : decodeFullTx ChainState.shortCoinbase.serialize = .ok ChainState.shortCoinbase :=
    decodeFullTx_serialize_iff.mpr ⟨by decide, by decide, by decide, by decide⟩
  exact ((explorer_agrees_iff shaCrypto).1 _ _ hnode fun _ => rfl).mpr
    ⟨rfl, ⟨by decide, by decide, by decide⟩, by decide, by decide⟩

def spendingTx : Transaction :=
  ⟨1, [⟨⟨0x01 :: List.replicate 31 0, rfl⟩, 0, [], 0xffffffff⟩], [⟨1000, p2pkhScript (ByteVec.zero 20)⟩], 0⟩

def fundingAnchor : AgreementAnchor := ⟨encodeHex (ByteVec.zero 32).bytes, .funding, none⟩

theorem explorer_reverses_outpoint :
    decodeFullTx spendingTx.serialize = .ok spendingTx ∧
      (∃ parsed, decodeTx shaCrypto (encodeHex spendingTx.serialize) = .ok parsed ∧
        parsed.inputs.map TxInput.prevTxid = [encodeHex (List.replicate 31 0 ++ [0x01])] ∧
        ¬ parsed.Agrees shaCrypto spendingTx) ∧
      (buildAgreementAnchorOutput fundingAnchor).toOption.map (fun out =>
        (parseAgreementAnchor out.scriptPubkey, opReturnAnchor out.scriptPubkey)) = some (some fundingAnchor, none) := by
  have hnode : decodeFullTx spendingTx.serialize = .ok spendingTx :=
    decodeFullTx_serialize_iff.mpr ⟨by decide, by decide, by decide, by decide⟩
  have hshort : ShortCounts spendingTx := ⟨by decide, by decide, by decide⟩
  refine ⟨hnode, ⟨_, decodeTx_eq hnode hshort, rfl, fun h => ?_⟩, by decide +kernel⟩
  exact absurd ((seenTx_agrees_iff.mp h).1 _ List.mem_cons_self) (by decide)

end Explorer

end IriumConsensus
