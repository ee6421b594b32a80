import IriumConsensus.WitnessCodec

namespace IriumConsensus

open ByteCodec

variable {bs rest sig pubkey preimage chunk : Bytes} {w : InputWitness}

theorem encodeChunk_eq_some {e : Bytes} :
    encodeChunk chunk = some e ↔ (chunk ≠ [] ∧ chunk.length ≤ 255) ∧ UInt8.ofNat chunk.length :: chunk = e := by
  unfold encodeChunk
  rw [Option.ite_none_left_eq_some, not_or, not_lt, Option.some.injEq]

theorem readChunk_ok :
    readChunk bs = .ok (chunk, rest) ↔ ∃ e, encodeChunk chunk = some e ∧ bs = e ++ rest := by
  simp only [encodeChunk_eq_some, readChunk, reader_bind_eq_ok, readU8_ok]
  constructor
  · rintro ⟨len, mid, rfl, h⟩
    by_cases h0 : len = 0
    · simp [h0, reader_bind_eq_ok, reader_throw] at h
    · rw [if_neg h0] at h
      obtain ⟨hlen, rfl⟩ := readBytes_ok.mp h
      have hpos : len.toNat ≠ 0 := fun hz => h0 (UInt8.toNat_inj.mp hz)
      have hlt := len.toNat_lt
      refine ⟨_, ⟨⟨fun hnil => ?_, by omega⟩, rfl⟩, by rw [hlen, UInt8.ofNat_toNat]; rfl⟩
      rw [hnil] at hlen
      exact hpos hlen.symm
  · rintro ⟨_, ⟨⟨hne, hle⟩, rfl⟩, rfl⟩
    have hlen : (UInt8.ofNat chunk.length).toNat = chunk.length := by
      rw [UInt8.toNat_ofNat']
      omega
    have h0 : UInt8.ofNat chunk.length ≠ 0 := by
      intro hz
      rw [hz] at hlen
      exact hne (List.length_eq_zero_iff.mp hlen.symm)
    refine ⟨_, _, rfl, ?_⟩
    rw [if_neg h0, hlen]
    exact readBytes_ok.mpr ⟨rfl, rfl⟩

theorem readEnd_ok {u : Unit} : readEnd bs = .ok (u, rest) ↔ bs = [] ∧ rest = [] := by
  unfold readEnd
  split
  next h => simp [h, eq_comm]
  next h => simp [h]

theorem parseWith_eq_some {α : Type} {r : Reader α} {a : α} :
    parseWith r bs = some a ↔ ∃ rest, r bs = .ok (a, rest) := by
  unfold parseWith
  cases h : r bs with
  | error e => simp
  | ok p => simp [Prod.ext_iff, eq_comm]

theorem encodeSigPubkey_eq_some {keys : Bytes} :
    encodeSigPubkey sig pubkey = some keys ↔
      ∃ a b, encodeChunk sig = some a ∧ encodeChunk pubkey = some b ∧ a ++ b = keys := by
  simp [encodeSigPubkey, Option.bind_eq_some_iff]

theorem parse_readSigPubkey :
    parseWith readSigPubkey bs = some (sig, pubkey) ↔ encodeSigPubkey sig pubkey = some bs := by
  simp only [parseWith_eq_some, encodeSigPubkey_eq_some, readSigPubkey, reader_bind_eq_ok, readChunk_ok, readEnd_ok,
    reader_pure, Except.ok.injEq, Prod.mk.injEq]
  constructor
  · rintro ⟨_, _, _, ⟨a, ha, rfl⟩, _, _, ⟨b, hb, rfl⟩, _, _, ⟨rfl, rfl⟩, ⟨rfl, rfl⟩, -⟩
    exact ⟨a, b, ha, hb, by simp⟩
  · rintro ⟨a, b, ha, hb, rfl⟩
    exact ⟨[], sig, b, ⟨a, ha, rfl⟩, pubkey, [], ⟨b, hb, by simp⟩, (), [], ⟨rfl, rfl⟩, ⟨rfl, rfl⟩, rfl⟩

theorem parse_readHtlcClaim :
    parseWith readHtlcClaim bs = some w ↔
      ∃ sig pubkey preimage, w = .htlcClaim sig pubkey preimage ∧
        encodeHtlcv1ClaimWitness sig pubkey preimage = some (1 :: bs) := by
  simp only [parseWith_eq_some, encodeHtlcv1ClaimWitness, encodeSigPubkey_eq_some, readHtlcClaim, reader_bind_eq_ok,
    readChunk_ok, readEnd_ok, reader_pure, Except.ok.injEq, Prod.mk.injEq, Option.bind_eq_bind, Option.bind_eq_some_iff,
    Option.pure_def, Option.some.injEq]
  constructor
  · rintro ⟨_, sig, _, ⟨a, ha, rfl⟩, pubkey, _, ⟨b, hb, rfl⟩, preimage, _, ⟨c, hc, rfl⟩, _, _, ⟨rfl, rfl⟩, rfl, -⟩
    exact ⟨sig, pubkey, preimage, rfl, _, ⟨a, b, ha, hb, rfl⟩, c, hc, by simp⟩
  · rintro ⟨sig, pubkey, preimage, rfl, _, ⟨a, b, ha, hb, rfl⟩, c, hc, h⟩
    obtain rfl := (List.cons.inj h).2
    exact ⟨[], sig, b ++ c, ⟨a, ha, by simp⟩, pubkey, c, ⟨b, hb, rfl⟩, preimage, [], ⟨c, hc, by simp⟩, (), [], ⟨rfl, rfl⟩,
      rfl, rfl⟩

theorem head_encodeSigPubkey (h : encodeSigPubkey sig pubkey = some bs) :
    ∃ tag rest, bs = tag :: rest ∧ tag.toNat = sig.length := by
  obtain ⟨_, b, ha, -, rfl⟩ := encodeSigPubkey_eq_some.mp h
  obtain ⟨⟨-, hle⟩, rfl⟩ := encodeChunk_eq_some.mp ha
  refine ⟨_, _, rfl, ?_⟩
  rw [UInt8.toNat_ofNat']
  omega

def InputWitness.encode : InputWitness → Option Bytes
  | .htlcClaim sig pubkey preimage => encodeHtlcv1ClaimWitness sig pubkey preimage
  | .htlcRefund sig pubkey => encodeHtlcv1RefundWitness sig pubkey
  | .p2pkh sig pubkey => encodeSigPubkey sig pubkey
  | .unknown => none

/-- The length byte of the signature is one of the tags of the other two forms. -/
def InputWitness.Tagged : InputWitness → Prop
  | .p2pkh sig _ => sig.length = 1 ∨ sig.length = 2
  | _ => False

theorem getD_unknown {o : Option InputWitness} (h : o.getD .unknown = w) (hw : w ≠ .unknown) :
    o = some w := by
  cases o with
  | none => exact absurd h.symm hw
  | some a => exact congrArg some h

theorem encodeRefund_eq_some : encodeHtlcv1RefundWitness sig pubkey = some bs ↔
    ∃ keys, encodeSigPubkey sig pubkey = some keys ∧ 2 :: keys = bs := by
  simp [encodeHtlcv1RefundWitness, Option.bind_eq_some_iff]

theorem encode_of_parseInputWitness (h : parseInputWitness bs = w) (hw : w ≠ .unknown) :
    w.encode = some bs ∧ ¬ w.Tagged := by
  unfold parseInputWitness at h
  split at h
  next => exact absurd h.symm hw
  next tag rest =>
    split_ifs at h with h1 h2
    · obtain ⟨sig, pubkey, preimage, rfl, henc⟩ := parse_readHtlcClaim.mp (getD_unknown h hw)
      exact ⟨h1 ▸ henc, id⟩
    · obtain ⟨⟨sig, pubkey⟩, hkeys, rfl⟩ := Option.map_eq_some_iff.mp (getD_unknown h hw)
      exact ⟨encodeRefund_eq_some.mpr ⟨rest, parse_readSigPubkey.mp hkeys, by rw [h2]⟩, id⟩
    · obtain ⟨⟨sig, pubkey⟩, hkeys, rfl⟩ := Option.map_eq_some_iff.mp (getD_unknown h hw)
      have henc := parse_readSigPubkey.mp hkeys
      obtain ⟨_, _, hcons, htag⟩ := head_encodeSigPubkey henc
      obtain ⟨rfl, -⟩ := List.cons.inj hcons
      refine ⟨henc, fun hlen => ?_⟩
      rcases hlen with hlen | hlen
      · exact h1 (UInt8.toNat_inj.mp (htag.trans hlen))
      · exact h2 (UInt8.toNat_inj.mp (htag.trans hlen))

theorem parseInputWitness_encode (h : w.encode = some bs) (ht : ¬ w.Tagged) :
    parseInputWitness bs = w := by
  cases w with
  | htlcClaim sig pubkey preimage =>
    have hshape : ∃ rest, bs = 1 :: rest := by
      simp only [InputWitness.encode, encodeHtlcv1ClaimWitness, Option.bind_eq_bind, Option.bind_eq_some_iff,
        Option.pure_def, Option.some.injEq] at h
      obtain ⟨_, -, _, -, rfl⟩ := h
      exact ⟨_, rfl⟩
    obtain ⟨rest, rfl⟩ := hshape
    rw [parseInputWitness, if_pos rfl, parse_readHtlcClaim.mpr ⟨sig, pubkey, preimage, rfl, h⟩, Option.getD_some]
  | htlcRefund sig pubkey =>
    obtain ⟨keys, hkeys, rfl⟩ := encodeRefund_eq_some.mp h
    rw [parseInputWitness, if_neg (by decide), if_pos rfl, parse_readSigPubkey.mpr hkeys]
    rfl
  | p2pkh sig pubkey =>
    obtain ⟨tag, rest, rfl, htag⟩ := head_encodeSigPubkey h
    have hne : tag ≠ 1 ∧ tag ≠ 2 := by
      refine ⟨?_, ?_⟩
      · rintro rfl
        exact ht (.inl htag.symm)
      · rintro rfl
        exact ht (.inr htag.symm)
    rw [parseInputWitness, if_neg hne.1, if_neg hne.2, parseLegacyP2pkhWitness, parse_readSigPubkey.mpr h]
    rfl
  | unknown => cases h

section

variable {blockHash : Hash32} {branch : List Hash32} {index : UInt32} {field field' txRaw : Bytes}

/-- A claim whose transaction length is written as `field`. -/
def claimBytes (sig pubkey : Bytes) (blockHash : Hash32) (branch : List Hash32) (index : UInt32) (field txRaw : Bytes) :
    Option Bytes :=
  (encodeSigPubkey sig pubkey).map fun keys => 1 :: keys ++ blockHash.bytes ++ leList 2 branch.length ++
    branch.flatMap ByteVec.bytes ++ le32 index ++ field ++ txRaw

theorem claimBytes_inj (h : claimBytes sig pubkey blockHash branch index field txRaw = some bs)
    (h' : claimBytes sig pubkey blockHash branch index field' txRaw = some bs) : field = field' := by
  obtain ⟨keys, hkeys, rfl⟩ := Option.map_eq_some_iff.mp h
  obtain ⟨keys', hkeys', heq⟩ := Option.map_eq_some_iff.mp h'
  obtain rfl := Option.some.inj (hkeys.symm.trans hkeys')
  exact (List.append_cancel_left (List.append_cancel_right heq)).symm

theorem encodeHtlcSwapClaimWitness_eq_some :
    encodeHtlcSwapClaimWitness sig pubkey blockHash branch index txRaw = some bs ↔
      (branch.length ≤ 0xffff ∧ txRaw ≠ []) ∧
        claimBytes sig pubkey blockHash branch index (writeVarint txRaw.length) txRaw = some bs := by
  simp only [encodeHtlcSwapClaimWitness, claimBytes, Option.map_eq_some_iff, Option.bind_eq_bind,
    Option.bind_eq_some_iff, Option.guard_eq_some', exists_const, Option.pure_def, Option.some.injEq]
  constructor
  · rintro ⟨keys, hkeys, hbranch, htx, h⟩
    exact ⟨⟨hbranch, htx⟩, keys, hkeys, h⟩
  · rintro ⟨⟨hbranch, htx⟩, keys, hkeys, h⟩
    exact ⟨keys, hkeys, hbranch, htx, h⟩

theorem readVarint_ok {n : Nat} :
    readVarint "" bs = .ok (n, rest) ↔ ∃ field, Reads (readVarint "") field n ∧ bs = field ++ rest := by
  constructor
  · intro h
    obtain ⟨first, mid, hfirst, htail⟩ := reader_bind_eq_ok.mp h
    clear h
    obtain rfl := readU8_ok.mp hfirst
    split_ifs at htail with h1 h2 h3 <;>
      simp only [reader_bind_eq_ok, readU64_ok, readU32_ok, readU16_ok, reader_pure, Except.ok.injEq,
        Prod.mk.injEq] at htail
    · obtain ⟨x, _, rfl, rfl, rfl⟩ := htail
      refine ⟨first :: le64 x, (readU8_reads "" first).bind ?_, rfl⟩
      rw [if_pos h1]
      exact (readU64_reads "" x).map UInt64.toNat
    · obtain ⟨x, _, rfl, rfl, rfl⟩ := htail
      refine ⟨first :: le32 x, (readU8_reads "" first).bind ?_, rfl⟩
      rw [if_neg h1, if_pos h2]
      exact (readU32_reads "" x).map UInt32.toNat
    · obtain ⟨x, _, rfl, rfl, rfl⟩ := htail
      refine ⟨first :: le16 x, (readU8_reads "" first).bind ?_, rfl⟩
      rw [if_neg h1, if_neg h2, if_pos h3]
      exact (readU16_reads "" x).map UInt16.toNat
    · obtain ⟨rfl, rfl⟩ := htail
      refine ⟨[first], (readU8_reads "" first).bind ?_, rfl⟩
      rw [if_neg h1, if_neg h2, if_neg h3]
      exact reads_pure first.toNat
  · rintro ⟨field, hfield, rfl⟩
    exact hfield rest

theorem parse_readSwapClaim {w : HtlcSwapWitness} :
    parseWith readSwapClaim bs = some w ↔ ∃ sig pubkey blockHash branch index field txRaw,
      w = .claim sig pubkey blockHash branch index txRaw ∧ (branch.length ≤ 32 ∧ txRaw ≠ [] ∧ txRaw.length ≤ 1000000) ∧
        Reads (readVarint "") field txRaw.length ∧
        claimBytes sig pubkey blockHash branch index field txRaw = some (1 :: bs) := by
  simp only [parseWith_eq_some, readSwapClaim, claimBytes, encodeSigPubkey_eq_some, Option.map_eq_some_iff,
    reader_bind_eq_ok, readChunk_ok, readVec_ok, readU16_ok]
  constructor
  · rintro ⟨_, sig, _, ⟨a, ha, rfl⟩, pubkey, _, ⟨b, hb, rfl⟩, blockHash, _, rfl, len, _, rfl, h⟩
    split_ifs at h with hlen
    · simp [reader_bind_eq_ok, reader_throw] at h
    · simp only [reader_bind_eq_ok, readMany_ok fun _ _ _ => readVec_ok, readU32_ok, readVarint_ok] at h
      obtain ⟨branch, _, ⟨hbranch, rfl⟩, index, _, rfl, n, _, ⟨field, hfield, rfl⟩, h⟩ := h
      split_ifs at h with htx
      · simp [reader_bind_eq_ok, reader_throw] at h
      · simp only [reader_bind_eq_ok, readBytes_ok, readEnd_ok, reader_pure, Except.ok.injEq, Prod.mk.injEq] at h
        obtain ⟨txRaw, _, ⟨rfl, rfl⟩, _, _, ⟨rfl, rfl⟩, rfl, -⟩ := h
        have hle : branch.length ≤ 32 := by
          rw [hbranch]
          exact UInt16.le_iff_toNat_le.mp (UInt16.not_lt.mp hlen)
        refine ⟨sig, pubkey, blockHash, branch, index, field, txRaw, rfl, ⟨hle, ?_, by omega⟩, hfield, _,
          ⟨a, b, ha, hb, rfl⟩, by simp [le16, hbranch]⟩
        rintro rfl
        exact htx (.inl rfl)
  · rintro ⟨sig, pubkey, blockHash, branch, index, field, txRaw, rfl, ⟨hbranch, hne, hmax⟩, hfield, _,
      ⟨a, b, ha, hb, rfl⟩, h⟩
    have hlen : (UInt16.ofNat branch.length).toNat = branch.length := by
      rw [UInt16.toNat_ofNat']
      omega
    have htx : ¬ (txRaw.length = 0 ∨ txRaw.length > 1000000) := by
      rw [List.length_eq_zero_iff, not_or]
      exact ⟨hne, by omega⟩
    have hbranch' : ¬ UInt16.ofNat branch.length > 32 := by
      rw [gt_iff_lt, UInt16.lt_iff_toNat_lt, hlen]
      exact not_lt.mpr hbranch
    refine ⟨[], sig, _, ⟨a, ha, ?_⟩, pubkey, _, ⟨b, hb, rfl⟩, blockHash, _, rfl, UInt16.ofNat branch.length,
      branch.flatMap ByteVec.bytes ++ (le32 index ++ (field ++ txRaw)), rfl, ?_⟩
    · rw [← (List.cons.inj h).2]
      simp [le16, hlen]
    · rw [if_neg hbranch', hlen]
      simp only [reader_bind_eq_ok, readMany_ok fun _ _ _ => readVec_ok, readU32_ok]
      refine ⟨branch, _, ⟨rfl, rfl⟩, index, _, rfl, txRaw.length, txRaw, hfield txRaw, ?_⟩
      rw [if_neg htx]
      simp only [reader_bind_eq_ok, readBytes_ok, readEnd_ok, reader_pure]
      exact ⟨txRaw, [], ⟨rfl, by simp⟩, (), [], ⟨rfl, rfl⟩, rfl⟩

def HtlcSwapWitness.encode : HtlcSwapWitness → Option Bytes
  | .claim sig pubkey blockHash branch index txRaw => encodeHtlcSwapClaimWitness sig pubkey blockHash branch index txRaw
  | .refund sig pubkey => encodeHtlcSwapRefundWitness sig pubkey

/-- The limits that only the parser knows. -/
def HtlcSwapWitness.WithinLimits : HtlcSwapWitness → Prop
  | .claim _ _ _ branch _ txRaw => branch.length ≤ 32 ∧ txRaw.length ≤ 1000000
  | .refund _ _ => True

theorem parseHtlcSwapWitness_claim :
    parseHtlcSwapWitness bs = some (.claim sig pubkey blockHash branch index txRaw) ↔
      (branch.length ≤ 32 ∧ txRaw ≠ [] ∧ txRaw.length ≤ 1000000) ∧ ∃ field,
        Reads (readVarint "") field txRaw.length ∧
          claimBytes sig pubkey blockHash branch index field txRaw = some bs := by
  have hcons : ∀ {field}, claimBytes sig pubkey blockHash branch index field txRaw = some bs → bs.head? = some 1 := by
    intro field h
    obtain ⟨keys, -, rfl⟩ := Option.map_eq_some_iff.mp h
    rfl
  unfold parseHtlcSwapWitness
  split
  next =>
    refine iff_of_false (by simp) ?_
    rintro ⟨-, field, -, h⟩
    cases hcons h
  next tag rest =>
    by_cases h1 : tag = 1
    · subst h1
      rw [if_pos rfl, parse_readSwapClaim]
      constructor
      · rintro ⟨_, _, _, _, _, field, _, heq, hlim, hfield, h⟩
        obtain ⟨rfl, rfl, rfl, rfl, rfl, rfl⟩ := HtlcSwapWitness.claim.inj heq
        exact ⟨hlim, field, hfield, h⟩
      · rintro ⟨hlim, field, hfield, h⟩
        exact ⟨_, _, _, _, _, field, _, rfl, hlim, hfield, h⟩
    · refine iff_of_false (by rw [if_neg h1]; split <;> simp) ?_
      rintro ⟨-, field, -, h⟩
      exact h1 (Option.some.inj (hcons h))

theorem parseHtlcSwapWitness_refund :
    parseHtlcSwapWitness bs = some (.refund sig pubkey) ↔ encodeHtlcSwapRefundWitness sig pubkey = some bs := by
  rw [show encodeHtlcSwapRefundWitness sig pubkey = some bs ↔ _ from encodeRefund_eq_some]
  unfold parseHtlcSwapWitness
  split
  next => simp
  next tag rest =>
    split_ifs with h1 h2
    · simp [parse_readSwapClaim, h1]
    · simp [h2, parse_readSigPubkey, Option.map_eq_some_iff]
    · simp [Ne.symm h2]

end

namespace SwapOrderWitness

variable {direction : UInt8} {w : SwapOrderWitness}

def encode : SwapOrderWitness → Option Bytes
  | .fillSell sig pubkey taker timeout => encodeSwapOrderFillSellWitness sig pubkey taker timeout
  | .fillBuy sig pubkey timeout => encodeSwapOrderFillBuyWitness sig pubkey timeout
  | .cancel sig pubkey => encodeSwapOrderCancelWitness sig pubkey
  | .expireSweep => some encodeSwapOrderExpireSweepWitness

def Fills (direction : UInt8) : SwapOrderWitness → Prop
  | .fillSell _ _ _ _ => direction = directionSell
  | .fillBuy _ _ _ => direction = directionBuy
  | _ => True

def tag : SwapOrderWitness → UInt8
  | .fillSell _ _ _ _ | .fillBuy _ _ _ => 1
  | .cancel _ _ => 2
  | .expireSweep => 3

def body : SwapOrderWitness → Option Bytes
  | .fillSell sig pubkey taker timeout => (encodeSigPubkey sig pubkey).map (· ++ (taker.bytes ++ (le64 timeout ++ [])))
  | .fillBuy sig pubkey timeout => (encodeSigPubkey sig pubkey).map (· ++ (le64 timeout ++ []))
  | .cancel sig pubkey => encodeSigPubkey sig pubkey
  | .expireSweep => some []

theorem encode_eq (w : SwapOrderWitness) : w.encode = w.body.map (w.tag :: ·) := by
  cases w with
  | expireSweep => rfl
  | _ =>
    simp only [encode, body, tag, encodeSwapOrderFillSellWitness, encodeSwapOrderFillBuyWitness,
      encodeSwapOrderCancelWitness, encodeHtlcv1RefundWitness]
    cases encodeSigPubkey _ _ <;> simp

theorem parse_readFill :
    parseWith (readFill direction) bs = some w ↔ w.tag = 1 ∧ w.Fills direction ∧ w.body = some bs := by
  have hne : directionBuy ≠ directionSell := by decide
  simp only [parseWith_eq_some, readFill, reader_bind_eq_ok, readChunk_ok]
  constructor
  · rintro ⟨_, sig, _, ⟨a, ha, rfl⟩, pubkey, _, ⟨b, hb, rfl⟩, h⟩
    split_ifs at h with hsell hbuy <;>
      simp only [reader_bind_eq_ok, readVec_ok, readU64_ok, readEnd_ok, reader_pure, reader_throw, reduceCtorEq,
        Except.ok.injEq, Prod.mk.injEq] at h
    · obtain ⟨taker, _, rfl, timeout, _, rfl, _, _, ⟨rfl, rfl⟩, rfl, -⟩ := h
      exact ⟨rfl, hsell, by simp [body, encodeSigPubkey, ha, hb]⟩
    · obtain ⟨timeout, _, rfl, _, _, ⟨rfl, rfl⟩, rfl, -⟩ := h
      exact ⟨rfl, hbuy, by simp [body, encodeSigPubkey, ha, hb]⟩
  · rintro ⟨htag, hfills, hbody⟩
    cases w with
    | fillSell sig pubkey taker timeout =>
      obtain rfl : direction = directionSell := hfills
      simp only [body, Option.map_eq_some_iff, encodeSigPubkey_eq_some] at hbody
      obtain ⟨_, ⟨a, b, ha, hb, rfl⟩, rfl⟩ := hbody
      refine ⟨[], sig, _, ⟨a, ha, List.append_assoc _ _ _⟩, pubkey, _, ⟨b, hb, rfl⟩, ?_⟩
      rw [if_pos rfl]
      simp only [reader_bind_eq_ok, readVec_ok, readU64_ok, readEnd_ok, reader_pure]
      exact ⟨taker, _, rfl, timeout, [], rfl, (), [], ⟨rfl, rfl⟩, rfl⟩
    | fillBuy sig pubkey timeout =>
      obtain rfl : direction = directionBuy := hfills
      simp only [body, Option.map_eq_some_iff, encodeSigPubkey_eq_some] at hbody
      obtain ⟨_, ⟨a, b, ha, hb, rfl⟩, rfl⟩ := hbody
      refine ⟨[], sig, _, ⟨a, ha, List.append_assoc _ _ _⟩, pubkey, _, ⟨b, hb, rfl⟩, ?_⟩
      rw [if_neg hne, if_pos rfl]
      simp only [reader_bind_eq_ok, readU64_ok, readEnd_ok, reader_pure]
      exact ⟨timeout, [], rfl, (), [], ⟨rfl, rfl⟩, rfl⟩
    | cancel sig pubkey => cases htag
    | expireSweep => cases htag

theorem parse_iff : parseOrderWitness bs direction = some w ↔ w.Fills direction ∧ w.encode = some bs := by
  rw [encode_eq, Option.map_eq_some_iff]
  unfold parseOrderWitness
  split
  next => simp
  next tag rest =>
    split_ifs with h1 h2 h3 h4
    · simp only [parse_readFill, h1, List.cons.injEq, exists_eq_right_right]
      tauto
    · cases w <;> simp [SwapOrderWitness.tag, Fills, body, h2, parse_readSigPubkey, Option.map_eq_some_iff]
    · cases w <;> simp [SwapOrderWitness.tag, Fills, body, h3, h4]
    · cases w <;> simp [SwapOrderWitness.tag, Fills, body, h3, Ne.symm h4]
    · cases w <;> simp [SwapOrderWitness.tag, Ne.symm h1, Ne.symm h2, Ne.symm h3]

end SwapOrderWitness

/-- How far the witness parsers and encoders undo each other. -/
theorem witness_codecs (bs : Bytes) :
    (∀ w, parseInputWitness bs = w → w ≠ .unknown → w.encode = some bs) ∧
    (∀ w : InputWitness, w.encode = some bs → (parseInputWitness bs = w ↔ ¬ w.Tagged)) ∧
    (∀ w : HtlcSwapWitness, w.encode = some bs → (parseHtlcSwapWitness bs = some w ↔ w.WithinLimits)) ∧
    (∀ sig pubkey, parseHtlcSwapWitness bs = some (.refund sig pubkey) →
      encodeHtlcSwapRefundWitness sig pubkey = some bs) ∧
    (∀ sig pubkey blockHash branch index txRaw,
      parseHtlcSwapWitness bs = some (.claim sig pubkey blockHash branch index txRaw) →
        ∃ field, claimBytes sig pubkey blockHash branch index field txRaw = some bs ∧
          (encodeHtlcSwapClaimWitness sig pubkey blockHash branch index txRaw = some bs ↔
            field = writeVarint txRaw.length)) ∧
    ∀ direction w, parseOrderWitness bs direction = some w ↔ w.Fills direction ∧ w.encode = some bs := by
  refine ⟨fun w h hw => (encode_of_parseInputWitness h hw).1, fun w h => ⟨fun hp => ?_, ?_⟩, fun w h => ?_,
    fun sig pubkey => parseHtlcSwapWitness_refund.mp, ?_, fun direction w => SwapOrderWitness.parse_iff⟩
  · refine (encode_of_parseInputWitness hp ?_).2
    rintro rfl
    cases h
  · exact parseInputWitness_encode h
  · cases w with
    | refund sig pubkey => exact iff_of_true (parseHtlcSwapWitness_refund.mpr h) trivial
    | claim sig pubkey blockHash branch index txRaw =>
      obtain ⟨⟨-, hne⟩, hbytes⟩ := encodeHtlcSwapClaimWitness_eq_some.mp h
      rw [parseHtlcSwapWitness_claim]
      constructor
      · rintro ⟨⟨hbranch, -, htx⟩, -⟩
        exact ⟨hbranch, htx⟩
      · rintro ⟨hbranch, htx⟩
        exact ⟨⟨hbranch, hne, htx⟩, _, readVarint_reads (by omega) "", hbytes⟩
  · intro sig pubkey blockHash branch index txRaw h
    obtain ⟨⟨hbranch, hne, -⟩, field, -, hbytes⟩ := parseHtlcSwapWitness_claim.mp h
    refine ⟨field, hbytes, ?_⟩
    rw [encodeHtlcSwapClaimWitness_eq_some]
    constructor
    · rintro ⟨-, hbytes'⟩
      exact claimBytes_inj hbytes hbytes'
    · rintro rfl
      exact ⟨⟨by omega, hne⟩, hbytes⟩

/-- A deep branch that no parser takes, a second spelling of a claim, and a short signature taken for a tag. -/
theorem witness_codecs_differ :
    (∃ bs, encodeHtlcSwapClaimWitness [1] [2] (ByteVec.zero 32) (List.replicate 33 (ByteVec.zero 32)) 0 [7] = some bs ∧
      parseHtlcSwapWitness bs = none) ∧
    (∃ bs, parseHtlcSwapWitness bs = some (.claim [1] [2] (ByteVec.zero 32) [] 0 [7]) ∧
      encodeHtlcSwapClaimWitness [1] [2] (ByteVec.zero 32) [] 0 [7] ≠ some bs) ∧
    (∃ bs, encodeSigPubkey [1] [1, 7, 1, 9] = some bs ∧ parseInputWitness bs = .htlcClaim [4] [7] [9]) := by
  refine ⟨⟨_, rfl, by decide +kernel⟩,
    ⟨1 :: 1 :: 1 :: 1 :: 2 :: List.replicate 32 0 ++ [0, 0, 0, 0, 0, 0, 0xfd, 1, 0, 7], by decide,
      by decide⟩, ⟨_, rfl, by decide⟩⟩

end IriumConsensus
