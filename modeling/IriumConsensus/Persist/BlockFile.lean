import IriumConsensus.Connect
import IriumConsensus.Lib.Json
import IriumConsensus.Lib.Text
import IriumConsensus.Persist.ReceiptCodec
import IriumConsensus.Persist.TxCodec

namespace IriumConsensus

open ByteCodec Checks

variable {json : Json} {key : String}

structure BlockFile where
  name : String
  json : Json

def maxStoredHeight : Nat := 100000000

def blockFileName (height : Nat) : String := "block_" ++ toString height ++ ".json"

def blockHeightFromFilename (name : String) : Option Nat := do
  let stripped ← name.toList.dropPrefix? "block_".toList
  let numPart ← stripped.dropSuffix? ".json".toList
  (fromStrRadix 10 (2 ^ 64) numPart).toOption

section

def laneText (lane : UInt8) : String :=
  if lane < 0x80 then String.singleton (Char.ofNat lane.toNat) else "?"

def textField (key text : String) : List (String × Json) := if text.isEmpty then [] else [(key, .str text)]

def hexOption {α : Type} (f : α → Bytes) (x : Option α) : String :=
  match x with
  | some a => encodeHex (f a)
  | none => ""

def receiptJson (r : PoawxBlockReceipt) : Json :=
  .obj ([("height", .nat r.height.toNat), ("lane", .str (laneText r.lane)),
    ("worker_pkh", .str (encodeHex r.workerPkh.bytes)), ("worker_pubkey", .str (encodeHex r.workerPubkey.bytes)),
    ("worker_sig", .str (encodeHex r.workerSig.bytes)), ("solution", .str (encodeHex r.solution.bytes)),
    ("commitment_nonce", .str (encodeHex r.commitmentNonce.bytes))] ++
    textField "delegation" (hexOption Delegation.serialize r.delegation) ++
    textField "phase20_ext" (hexOption Phase20ReceiptExt.serialize r.phase20Ext))

variable (C : Crypto) (E : NodeEnv)

def headerJson (height : Nat) (h : BlockHeader) : Json :=
  .obj [("version", .nat h.version.toNat), ("prev_hash", .str (encodeHex h.prevHash.bytes)),
    ("merkle_root", .str (encodeHex h.merkleRoot.bytes)), ("time", .nat h.time.toNat),
    ("bits", .str (encodeHex (le32 h.bits).reverse)), ("nonce", .nat h.nonce.toNat),
    ("hash", .str (encodeHex (h.hashForHeight C E height).bytes))]

def blockJson (height : Nat) (b : Block) : Json :=
  .obj ([("height", .nat height), ("header", headerJson C E height b.header),
    ("tx_hex", .arr (b.transactions.map fun tx => .str (encodeHex tx.serialize)))] ++
    Json.optionField "auxpow_hex" (b.auxpow.map fun ap => .str (encodeHex ap.serialize)) ++
    Json.optionField "poawx_receipts" (b.poawxReceipts.map fun rs => .arr (rs.map receiptJson)))

def writeBlockJson (height : Nat) (b : Block) : Except String BlockFile := do
  failIf (maxStoredHeight < height) "height out of range"
  return ⟨blockFileName height, blockJson C E height b⟩

end

section

def strField (key : String) (json : Json) : Option String := (json.get key).bind Json.asStr

def u64Field (key : String) (json : Json) : Option Nat := (json.get key).bind Json.asU64

def getHex32 (header : Json) (key : String) : Except String Hash32 := do
  let s ← orFail (strField key header) ("missing header." ++ key)
  let bytes ← (hexDecode s).mapError (("bad hex in " ++ key ++ ": ") ++ ·)
  if h : bytes.length = 32 then return ⟨bytes, h⟩ else throw (key ++ " must be 32 bytes")

def parseHeader (header : Json) : Except String BlockHeader := do
  let prevHash ← getHex32 header "prev_hash"
  let merkleRoot ← getHex32 header "merkle_root"
  let bits ← (fromStrRadix 16 (2 ^ 32) ((strField "bits" header).getD "1d00ffff").toList).mapError ("invalid bits: " ++ ·)
  return {
    version := UInt32.ofNat ((u64Field "version" header).getD 1)
    prevHash, merkleRoot
    time := UInt32.ofNat ((u64Field "time" header).getD 0)
    bits := UInt32.ofNat bits
    nonce := UInt32.ofNat ((u64Field "nonce" header).getD 0) }

def parseTx (entry : Json) : Except String Transaction := do
  let s ← orFail entry.asStr "tx_hex entry is not a string"
  let bytes ← (hexDecode s).mapError ("invalid tx hex: " ++ ·)
  (decodeCompactTx bytes).mapError ("failed to decode compact tx: " ++ ·)

def parseAuxpow (version : UInt32) (json : Json) : Option AuxPow :=
  if version &&& auxpowVersionBit ≠ 0 then do
    let s ← strField "auxpow_hex" json
    let bytes ← (hexDecode s).toOption
    (AuxPow.deserialize bytes).toOption
  else none

def firstByte (s : String) : Option UInt8 := (s.toList.flatMap String.utf8EncodeChar).head?

def vecField (n : Nat) (key : String) (json : Json) : Option (ByteVec n) := do
  let s ← strField key json
  let bytes ← (hexDecode s).toOption
  if h : bytes.length = n then some ⟨bytes, h⟩ else none

def optionalField {α : Type} (decode : Bytes → Except String α) (key : String) (json : Json) : Option (Option α) :=
  match strField key json with
  | some s =>
    if s.isEmpty then some none
    else do
      let bytes ← (hexDecode s).toOption
      let a ← (decode bytes).toOption
      return some a
  | none => some none

def parseReceipt (r : Json) : Option PoawxBlockReceipt := do
  let height ← u64Field "height" r
  let lane ← (strField "lane" r).bind firstByte
  let workerPkh ← vecField 20 "worker_pkh" r
  let workerPubkey ← vecField 33 "worker_pubkey" r
  let workerSig ← vecField 64 "worker_sig" r
  let solution ← vecField 8 "solution" r
  let commitmentNonce ← vecField 32 "commitment_nonce" r
  let delegation ← optionalField Delegation.deserialize "delegation" r
  let phase20Ext ← optionalField Phase20ReceiptExt.deserialize "phase20_ext" r
  return ⟨UInt64.ofNat height, lane, workerPkh, workerPubkey, workerSig, solution, commitmentNonce, delegation,
    phase20Ext⟩

def parseReceipts (json : Json) : Option (List PoawxBlockReceipt) :=
  ((json.get "poawx_receipts").bind Json.asArray).map fun items => items.filterMap parseReceipt

def parseBlock (json : Json) : Except String Block := do
  let headerObj ← orFail (json.get "header") "missing header"
  let header ← parseHeader headerObj
  let transactions ← (((json.get "tx_hex").bind Json.asArray).getD []).mapM parseTx
  return ⟨header, transactions, parseAuxpow header.version json, parseReceipts json⟩

variable (C : Crypto) (E : NodeEnv)

/-- What the loader asks of a block before it is connected: the native hash alone counts as proof of work. -/
def checkPersisted (genesisHashLc : String) (height : Nat) (b : Block) : Except String Unit :=
  if height = 0 then
    failIf ((encodeHex (b.header.hashForHeight C E 0).bytes).toLower ≠ genesisHashLc) "genesis hash mismatch"
  else do
    failIf (b.transactions = []) "block has no transactions"
    failIf (b.merkleRoot C ≠ b.header.merkleRoot) "block merkle root mismatch"
    failIf (b.header.bits = 0) "header bits is zero"
    failIf (meetsTarget (b.header.hashForHeight C E height) b.header.target = false)
      "header hash does not meet declared target"

def parsePersistedBlockFile (genesisHashLc : String) (file : BlockFile) : Except String (Nat × Block) := do
  let height ← orFail (blockHeightFromFilename file.name) "invalid block file name"
  let b ← parseBlock file.json
  checkPersisted C E genesisHashLc height b
  return (height, b)

end

theorem blockHeightFromFilename_blockFileName {height : Nat} (h : height < 2 ^ 64) :
    blockHeightFromFilename (blockFileName height) = some height := by
  have hname : (blockFileName height).toList = "block_".toList ++ (Nat.toDigits 10 height ++ ".json".toList) := by
    rw [blockFileName, String.toList_append, String.toList_append, List.append_assoc]
    congr 2
    exact Nat.toList_repr
  have hpre : (blockFileName height).toList.dropPrefix? "block_".toList =
      some (Nat.toDigits 10 height ++ ".json".toList) :=
    List.dropPrefix?_eq_some_iff.mpr ⟨_, hname, BEq.rfl⟩
  have hsuf : (Nat.toDigits 10 height ++ ".json".toList).dropSuffix? ".json".toList = some (Nat.toDigits 10 height) :=
    List.dropSuffix?_eq_some_iff.mpr ⟨_, rfl, BEq.rfl⟩
  rw [blockHeightFromFilename, hpre, Option.bind_eq_bind, Option.bind_some, hsuf, Option.bind_some,
    fromStrRadix_toDigits h]
  rfl

theorem getHex32_eq {v : Hash32} (h : strField key json = some (encodeHex v.bytes)) :
    getHex32 json key = .ok v := by
  simp only [getHex32, bind_eq_ok, orFail_eq_ok, mapError_eq_ok]
  refine ⟨_, h, v.bytes, hexDecode_encodeHex v.bytes, ?_⟩
  rw [dif_pos v.length_eq]
  rfl

theorem vecField_eq {n : Nat} {v : ByteVec n}
    (h : strField key json = some (encodeHex v.bytes)) : vecField n key json = some v := by
  simp [vecField, h, hexDecode_encodeHex, Except.toOption, v.length_eq]

theorem u64Field_eq {n : Nat} (hn : n < 2 ^ 64) (h : json.get key = some (.nat n)) :
    u64Field key json = some n := by
  rw [u64Field, h, Option.bind_some, Json.asU64_nat hn]

theorem parseHeader_headerJson (C : Crypto) (E : NodeEnv) (height : Nat) (h : BlockHeader) :
    parseHeader (headerJson C E height h) = .ok h := by
  have hlt : ∀ x : UInt32, x.toNat < 2 ^ 64 := fun x => x.toNat_lt.trans (by decide)
  have hprev : getHex32 (headerJson C E height h) "prev_hash" = .ok h.prevHash := getHex32_eq rfl
  have hroot : getHex32 (headerJson C E height h) "merkle_root" = .ok h.merkleRoot := getHex32_eq rfl
  have hversion : u64Field "version" (headerJson C E height h) = some h.version.toNat := u64Field_eq (hlt _) rfl
  have htime : u64Field "time" (headerJson C E height h) = some h.time.toNat := u64Field_eq (hlt _) rfl
  have hnonce : u64Field "nonce" (headerJson C E height h) = some h.nonce.toNat := u64Field_eq (hlt _) rfl
  have hbits : strField "bits" (headerJson C E height h) = some (encodeHex (le32 h.bits).reverse) := rfl
  have hvalue : beNat (le32 h.bits).reverse = h.bits.toNat := by
    rw [beNat_reverse, le32, leNat_leList]
    exact Nat.mod_eq_of_lt h.bits.toNat_lt
  have hparse : fromStrRadix 16 (2 ^ 32) (encodeHex (le32 h.bits).reverse).toList = .ok h.bits.toNat := by
    rw [encodeHex, String.toList_ofList, ← hvalue]
    exact fromStrRadix_hex (by simp [le32, leList]) (by rw [hvalue]; exact h.bits.toNat_lt)
  simp only [parseHeader, bind_eq_ok, mapError_eq_ok, hversion, htime, hnonce, hbits, Option.getD_some, pure_eq_ok]
  refine ⟨_, hprev, _, hroot, _, hparse, ?_⟩
  simp

section

theorem firstByte_laneText (lane : UInt8) : firstByte (laneText lane) = some lane ↔ lane < 0x80 := by
  have hall : ∀ n : Fin 256, firstByte (laneText (UInt8.ofNat n)) = some (UInt8.ofNat n) ↔ UInt8.ofNat n < 0x80 := by
    decide +kernel
  have hlane := hall ⟨lane.toNat, lane.toNat_lt⟩
  rwa [UInt8.ofNat_toNat] at hlane

theorem lookup_textField (key text : String) :
    (textField key text).lookup key = if text.isEmpty then none else some (.str text) := by
  unfold textField
  split
  next => rfl
  next => simp

theorem lookup_textField_ne {key' : String} (h : key ≠ key') (text : String) :
    (textField key' text).lookup key = none := by
  unfold textField
  split
  next => rfl
  next => simp [List.lookup_cons, beq_eq_false_iff_ne.mpr h]

theorem optionalField_eq_iff {α : Type} {f : α → Bytes} {decode : Bytes → Except String α} {x : Option α} (hf : ∀ a, f a ≠ [])
    (h : strField key json = if (hexOption f x).isEmpty then none else some (hexOption f x)) :
    optionalField decode key json = some x ↔ ∀ a ∈ x, decode (f a) = .ok a := by
  cases x with
  | none =>
    have hnone : strField key json = none := h
    simp [optionalField, hnone]
  | some a =>
    have hne : (encodeHex (f a)).isEmpty = false := by
      obtain ⟨b, bs, hbs⟩ := List.exists_cons_of_ne_nil (hf a)
      rw [hbs, encodeHex]
      simp [hexByte, String.isEmpty_eq_false_iff]
    have hsome : strField key json = some (encodeHex (f a)) := by
      rw [h, hexOption]
      simp [hne]
    cases hd : decode (f a) with
    | error e => simp [optionalField, hsome, hne, hexDecode_encodeHex, Except.toOption, hd]
    | ok a' => simp [optionalField, hsome, hne, hexDecode_encodeHex, Except.toOption, hd]

theorem receiptJson_delegation (r : PoawxBlockReceipt) :
    strField "delegation" (receiptJson r) =
      if (hexOption Delegation.serialize r.delegation).isEmpty then none
      else some (hexOption Delegation.serialize r.delegation) := by
  simp only [strField, receiptJson, Json.get, List.lookup_append, lookup_textField,
    lookup_textField_ne (show "delegation" ≠ "phase20_ext" by decide), Option.or_none]
  rw [show List.lookup "delegation" _ = none from rfl, Option.none_or]
  split <;> rfl

theorem receiptJson_phase20Ext (r : PoawxBlockReceipt) :
    strField "phase20_ext" (receiptJson r) =
      if (hexOption Phase20ReceiptExt.serialize r.phase20Ext).isEmpty then none
      else some (hexOption Phase20ReceiptExt.serialize r.phase20Ext) := by
  simp only [strField, receiptJson, Json.get, List.lookup_append, lookup_textField,
    lookup_textField_ne (show "phase20_ext" ≠ "delegation" by decide), Option.or_none]
  rw [show List.lookup "phase20_ext" _ = none from rfl, Option.none_or]
  split <;> rfl

structure PoawxBlockReceipt.Fits (r : PoawxBlockReceipt) : Prop where
  lane : r.lane < 0x80
  phase20Ext : ∀ e ∈ r.phase20Ext, e.Fits

instance (r : PoawxBlockReceipt) : Decidable r.Fits :=
  decidable_of_iff (_ ∧ _) ⟨fun h => ⟨h.1, h.2⟩, fun h => ⟨h.lane, h.phase20Ext⟩⟩

theorem parseReceipt_receiptJson_iff {r : PoawxBlockReceipt} : parseReceipt (receiptJson r) = some r ↔ r.Fits := by
  have hheight : u64Field "height" (receiptJson r) = some r.height.toNat := u64Field_eq r.height.toNat_lt rfl
  have hlane : strField "lane" (receiptJson r) = some (laneText r.lane) := rfl
  have hpkh : vecField 20 "worker_pkh" (receiptJson r) = some r.workerPkh := vecField_eq rfl
  have hpubkey : vecField 33 "worker_pubkey" (receiptJson r) = some r.workerPubkey := vecField_eq rfl
  have hsig : vecField 64 "worker_sig" (receiptJson r) = some r.workerSig := vecField_eq rfl
  have hsolution : vecField 8 "solution" (receiptJson r) = some r.solution := vecField_eq rfl
  have hnonce : vecField 32 "commitment_nonce" (receiptJson r) = some r.commitmentNonce := vecField_eq rfl
  have hdelegation : optionalField Delegation.deserialize "delegation" (receiptJson r) = some r.delegation := by
    refine (optionalField_eq_iff (fun d hnil => ?_) (receiptJson_delegation r)).mpr fun d _ => d.deserialize_serialize
    have hlen := d.serialize_length
    rw [hnil] at hlen
    exact absurd hlen (by decide)
  have hext : optionalField Phase20ReceiptExt.deserialize "phase20_ext" (receiptJson r) = some r.phase20Ext ↔
      ∀ e ∈ r.phase20Ext, e.Fits := by
    rw [optionalField_eq_iff (fun e => by simp [Phase20ReceiptExt.serialize]) (receiptJson_phase20Ext r)]
    simp only [Phase20ReceiptExt.deserialize_serialize_iff]
  simp only [parseReceipt, hheight, hlane, hpkh, hpubkey, hsig, hsolution, hnonce, hdelegation, Option.bind_eq_bind,
    Option.bind_some, Option.bind_eq_some_iff]
  constructor
  · rintro ⟨lane, hl, ext, he, heq⟩
    obtain rfl : lane = r.lane := congrArg PoawxBlockReceipt.lane (Option.some.inj heq)
    obtain rfl : ext = r.phase20Ext := congrArg PoawxBlockReceipt.phase20Ext (Option.some.inj heq)
    exact ⟨(firstByte_laneText _).mp hl, hext.mp he⟩
  · intro h
    refine ⟨r.lane, (firstByte_laneText _).mpr h.lane, r.phase20Ext, hext.mpr h.phase20Ext, ?_⟩
    simp

end

section

theorem parseTx_eq_iff {tx : Transaction} : parseTx (.str (encodeHex tx.serialize)) = .ok tx ↔ tx.Fits := by
  rw [← decodeCompactTx_serialize_iff]
  simp [parseTx, Json.asStr, orFail, hexDecode_encodeHex]

variable (C : Crypto) (E : NodeEnv) (height : Nat) (b : Block)

theorem blockJson_auxpow :
    strField "auxpow_hex" (blockJson C E height b) = b.auxpow.map fun ap => encodeHex ap.serialize := by
  simp only [strField, blockJson, Json.get, List.lookup_append, Json.lookup_optionField,
    Json.lookup_optionField_ne (show "auxpow_hex" ≠ "poawx_receipts" by decide), Option.or_none]
  rw [show List.lookup "auxpow_hex" _ = none from rfl, Option.none_or]
  cases b.auxpow <;> rfl

theorem blockJson_receipts :
    (Json.get "poawx_receipts" (blockJson C E height b)).bind Json.asArray =
      b.poawxReceipts.map fun rs => rs.map receiptJson := by
  simp only [blockJson, Json.get, List.lookup_append, Json.lookup_optionField,
    Json.lookup_optionField_ne (show "poawx_receipts" ≠ "auxpow_hex" by decide), Option.or_none]
  rw [show List.lookup "poawx_receipts" _ = none from rfl, Option.none_or]
  cases b.poawxReceipts <;> rfl

theorem parseAuxpow_eq_iff :
    parseAuxpow b.header.version (blockJson C E height b) = b.auxpow ↔
      ∀ ap ∈ b.auxpow, b.header.version &&& auxpowVersionBit ≠ 0 ∧ ap.Fits := by
  rw [parseAuxpow, blockJson_auxpow]
  cases haux : b.auxpow with
  | none => simp
  | some ap =>
    simp only [Option.map_some, Option.bind_eq_bind, Option.bind_some, hexDecode_encodeHex, Except.toOption,
      Option.mem_def, Option.some.injEq, forall_eq']
    rw [← AuxPow.deserialize_serialize_iff]
    split_ifs with hbit
    · cases hd : AuxPow.deserialize ap.serialize with
      | error e => simp
      | ok ap' => simp [hbit]
    · simp [hbit]

theorem parseReceipts_eq_iff :
    parseReceipts (blockJson C E height b) = b.poawxReceipts ↔ ∀ r ∈ b.receipts, r.Fits := by
  rw [parseReceipts, blockJson_receipts, Block.receipts]
  cases b.poawxReceipts with
  | none => simp
  | some rs =>
    rw [Option.map_some, Option.map_some, Option.some.injEq, filterMap_map_eq_self, Option.getD_some]
    simp only [parseReceipt_receiptJson_iff]

/-- What a block must be like for its text to give it back. -/
structure Block.TextFits (b : Block) : Prop where
  transactions : ∀ tx ∈ b.transactions, tx.Fits
  auxpow : ∀ ap ∈ b.auxpow, b.header.version &&& auxpowVersionBit ≠ 0 ∧ ap.Fits
  receipts : ∀ r ∈ b.receipts, r.Fits

theorem parseBlock_blockJson_iff : parseBlock (blockJson C E height b) = .ok b ↔ b.TextFits := by
  have hheader : Json.get "header" (blockJson C E height b) = some (headerJson C E height b.header) := rfl
  have htxs : (Json.get "tx_hex" (blockJson C E height b)).bind Json.asArray =
      some (b.transactions.map fun tx => .str (encodeHex tx.serialize)) := rfl
  simp only [parseBlock, hheader, htxs, orFail, Option.getD_some, parseHeader_headerJson, bind_eq_ok, pure_eq_ok,
    Except.ok.injEq, exists_eq_left']
  constructor
  · rintro ⟨txs, hmap, heq⟩
    obtain rfl : txs = b.transactions := congrArg Block.transactions heq
    refine ⟨fun tx htx => parseTx_eq_iff.mp (mapM_map_eq_ok.mp hmap tx htx), ?_, ?_⟩
    · exact (parseAuxpow_eq_iff C E height b).mp (congrArg Block.auxpow heq)
    · exact (parseReceipts_eq_iff C E height b).mp (congrArg Block.poawxReceipts heq)
  · intro h
    refine ⟨b.transactions, mapM_map_eq_ok.mpr fun tx htx => parseTx_eq_iff.mpr (h.transactions tx htx), ?_⟩
    rw [(parseAuxpow_eq_iff C E height b).mpr h.auxpow, (parseReceipts_eq_iff C E height b).mpr h.receipts]

/-- The file of a block at a height gives the block back to the loader: its lengths fit, and the native hash of its
header, which the loader looks at alone, meets its target. -/
structure Storable (C : Crypto) (E : NodeEnv) (height : Nat) (b : Block) : Prop extends b.TextFits where
  inRange : height ≤ maxStoredHeight
  bits : b.header.bits ≠ 0
  native : meetsTarget (b.header.hashForHeight C E height) b.header.target

instance : Decidable b.TextFits :=
  decidable_of_iff (_ ∧ _ ∧ _) ⟨fun h => ⟨h.1, h.2.1, h.2.2⟩, fun h => ⟨h.transactions, h.auxpow, h.receipts⟩⟩

instance : Decidable (Storable C E height b) :=
  decidable_of_iff (b.TextFits ∧ _ ∧ _ ∧ _)
    ⟨fun h => ⟨h.1, h.2.1, h.2.2.1, h.2.2.2⟩, fun h => ⟨h.toTextFits, h.inRange, h.bits, h.native⟩⟩

def blockFile : BlockFile := ⟨blockFileName height, blockJson C E height b⟩

theorem parsePersistedBlockFile_blockFile (genesisHashLc : String) (hheight : height ≤ maxStoredHeight)
    (hfits : b.TextFits) :
    parsePersistedBlockFile C E genesisHashLc (blockFile C E height b) =
      (checkPersisted C E genesisHashLc height b).map fun _ => (height, b) := by
  have hname := blockHeightFromFilename_blockFileName (hheight.trans_lt (by decide : maxStoredHeight < 2 ^ 64))
  rw [parsePersistedBlockFile, blockFile, hname, (parseBlock_blockJson_iff C E height b).mpr hfits]
  change (checkPersisted C E genesisHashLc height b >>= fun _ => pure (height, b)) = _
  cases checkPersisted C E genesisHashLc height b <;> rfl

theorem parse_write_iff (genesisHashLc : String) (hpos : 0 < height) (htxs : b.transactions ≠ [])
    (hroot : b.merkleRoot C = b.header.merkleRoot) :
    (∃ file, writeBlockJson C E height b = .ok file ∧
      parsePersistedBlockFile C E genesisHashLc file = .ok (height, b)) ↔ Storable C E height b := by
  constructor
  · rintro ⟨file, hwrite, hparse⟩
    simp only [writeBlockJson, bind_eq_ok, exists_unit, failIf_eq_ok, not_lt, pure_eq_ok] at hwrite
    obtain ⟨hheight, rfl⟩ := hwrite
    simp only [parsePersistedBlockFile, bind_eq_ok, orFail_eq_ok, exists_unit, pure_eq_ok, Prod.mk.injEq] at hparse
    obtain ⟨h', -, b', hb, hcheck, rfl, rfl⟩ := hparse
    rw [checkPersisted, if_neg hpos.ne'] at hcheck
    simp only [bind_eq_ok, exists_unit, failIf_eq_ok, Bool.not_eq_false] at hcheck
    exact ⟨(parseBlock_blockJson_iff C E h' b').mp hb, hheight, hcheck.2.2.1, hcheck.2.2.2⟩
  · intro h
    refine ⟨blockFile C E height b, ?_, ?_⟩
    · simp only [writeBlockJson, bind_eq_ok, exists_unit, failIf_eq_ok, not_lt, pure_eq_ok]
      exact ⟨h.inRange, rfl⟩
    · have hcheck : checkPersisted C E genesisHashLc height b = .ok () := by
        rw [checkPersisted, if_neg hpos.ne']
        simp only [bind_eq_ok, exists_unit, failIf_eq_ok, Bool.not_eq_false, not_not]
        exact ⟨htxs, hroot, h.bits, h.native⟩
      rw [parsePersistedBlockFile_blockFile C E height b genesisHashLc h.inRange h.toTextFits, hcheck]
      rfl

end

end IriumConsensus
