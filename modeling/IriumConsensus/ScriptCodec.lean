import IriumConsensus.Script

namespace IriumConsensus

open ByteCodec

variable {script : Bytes}

variable {o : SwapOrderOutput} {n start pos : Nat} {rest : Bytes} {tag : UInt8} {v : ByteVec n} {x : UInt64}
  {present : Bool} {pks : List PubKey33}

theorem drop_eq_of_getElem? {i : Nat} {b : UInt8} (h : script[i]? = some b) :
    script.drop i = b :: script.drop (i + 1) := by
  obtain ⟨hi, rfl⟩ := List.getElem?_eq_some_iff.mp h
  exact List.drop_eq_getElem_cons hi

theorem drop_eq_of_sliceVec (h : sliceVec n start script = some v) :
    script.drop start = v.bytes ++ script.drop (start + n) := by
  unfold sliceVec at h
  split at h
  next =>
    cases Option.some.inj h
    rw [← List.drop_drop, List.take_append_drop]
  next => simp at h

theorem drop_eq_of_u64At (h : u64At start script = some x) :
    script.drop start = le64 x ++ script.drop (start + 8) := by
  obtain ⟨v, hv, rfl⟩ := Option.map_eq_some_iff.mp h
  have hlt := leNat_lt v.bytes
  rw [v.length_eq] at hlt
  have hnat : (UInt64.ofNat (leNat v.bytes)).toNat = leNat v.bytes := by
    rw [UInt64.toNat_ofNat']
    exact Nat.mod_eq_of_lt hlt
  have hbytes : le64 (UInt64.ofNat (leNat v.bytes)) = v.bytes := by
    have hl := leList_leNat v.bytes
    rw [v.length_eq] at hl
    rw [le64, hnat, hl]
  rw [drop_eq_of_sliceVec hv, hbytes]

theorem drop_add_of_drop_eq (h : script.drop start = v.bytes ++ rest) : script.drop (start + n) = rest := by
  rw [← List.drop_drop, h]
  exact List.drop_left' v.length_eq

theorem sliceVec_of_drop (h : script.drop start = v.bytes ++ rest) : sliceVec n start script = some v := by
  have htake : (script.drop start).take n = v.bytes := by
    rw [h, List.take_append_of_le_length (Nat.le_of_eq v.length_eq.symm)]
    exact List.take_of_length_le (Nat.le_of_eq v.length_eq)
  simp [sliceVec, htake, v.length_eq]

theorem u64At_of_drop (h : script.drop start = le64 x ++ rest) :
    u64At start script = some x := by
  have hx : leNat (leList 8 x.toNat) = x.toNat := by
    rw [leNat_leList]
    exact Nat.mod_eq_of_lt x.toNat_lt
  rw [u64At, sliceVec_of_drop (v := leVec 8 x.toNat) h, Option.map_some]
  simp [leVec, hx]

theorem p2pkhScript_of_parse {pkh : Pkh} (h : parseP2pkhScript script = some pkh) :
    p2pkhScript pkh = script := by
  simp only [parseP2pkhScript, Option.bind_eq_bind, Option.bind_eq_some_iff, Option.guard_eq_some',
    exists_const] at h
  obtain ⟨hlen, ⟨h0, h1, h2⟩, ⟨h23, h24⟩, hpkh⟩ := h
  have hend : script.drop 25 = [] := List.drop_eq_nil_of_le (by omega)
  have hs := drop_eq_of_getElem? h0
  rw [List.drop_zero, drop_eq_of_getElem? h1, drop_eq_of_getElem? h2, drop_eq_of_sliceVec hpkh,
    drop_eq_of_getElem? h23, drop_eq_of_getElem? h24, hend] at hs
  rw [hs]
  simp [p2pkhScript]

theorem parseP2pkhScript_p2pkhScript (pkh : Pkh) : parseP2pkhScript (p2pkhScript pkh) = some pkh := by
  have hdrop : (p2pkhScript pkh).drop 3 = pkh.bytes ++ [0x88, 0xac] := rfl
  have hlen := pkh.length_eq
  simp only [parseP2pkhScript, sliceVec_of_drop hdrop, Option.bind_eq_bind, Option.bind_eq_some_iff,
    Option.guard_eq_some', exists_const]
  simp [p2pkhScript, hlen]

theorem encodeHtlcv1Script_of_parse {o : HtlcV1Output} (h : parseHtlcv1Script script = some o) :
    encodeHtlcv1Script o = script := by
  simp only [parseHtlcv1Script, Option.bind_eq_bind, Option.bind_eq_some_iff, Option.guard_eq_some',
    exists_const, Option.pure_def, Option.some.injEq] at h
  obtain ⟨hlen, ⟨h0, h1, h2⟩, hash, hh, rpkh, hr, fpkh, hf, t, ht, rfl⟩ := h
  have hend : script.drop 83 = [] := List.drop_eq_nil_of_le (by omega)
  have hs := drop_eq_of_getElem? h0
  rw [List.drop_zero, drop_eq_of_getElem? h1, drop_eq_of_getElem? h2, drop_eq_of_sliceVec hh,
    drop_eq_of_sliceVec hr, drop_eq_of_sliceVec hf, drop_eq_of_u64At ht, hend] at hs
  rw [hs]
  simp [encodeHtlcv1Script]

theorem parse_encodeHtlcv1Script (o : HtlcV1Output) : parseHtlcv1Script (encodeHtlcv1Script o) = some o := by
  have hlen : (le64 o.timeoutHeight).length = 8 := by simp [le64]
  have hbytes : encodeHtlcv1Script o = [htlcV1ScriptTag, 1, 1] ++ (o.expectedHash.bytes ++ (o.recipientPkh.bytes ++
      (o.refundPkh.bytes ++ le64 o.timeoutHeight))) := by
    simp [encodeHtlcv1Script]
  have h3 : (encodeHtlcv1Script o).drop 3 = o.expectedHash.bytes ++ (o.recipientPkh.bytes ++
      (o.refundPkh.bytes ++ le64 o.timeoutHeight)) := by rw [hbytes]; rfl
  have h35 := drop_add_of_drop_eq h3
  have h55 := drop_add_of_drop_eq h35
  have h75 := (drop_add_of_drop_eq h55).trans (List.append_nil _).symm
  have hl : (encodeHtlcv1Script o).length = 83 := by simp [encodeHtlcv1Script, hlen]
  simp only [parseHtlcv1Script, hl, sliceVec_of_drop h3, sliceVec_of_drop h35, sliceVec_of_drop h55,
    u64At_of_drop h75]
  rfl

theorem encodeHtlcSwapScript_of_parse {o : HtlcSwapOutput}
    (h : parseHtlcSwapScript tag script = some o) : encodeHtlcSwapScript tag o = script := by
  simp only [parseHtlcSwapScript, Option.bind_eq_bind, Option.bind_eq_some_iff, Option.guard_eq_some',
    exists_const, Option.pure_def, Option.some.injEq] at h
  obtain ⟨hlen, ⟨h0, h1⟩, conf, hc, rpkh, hr, fpkh, hf, gpkh, hg, amount, ha, t, ht, bind, hb, rfl⟩ := h
  have hend : script.drop 87 = [] := List.drop_eq_nil_of_le (by omega)
  have hs := drop_eq_of_getElem? h0
  rw [List.drop_zero, drop_eq_of_getElem? h1, drop_eq_of_getElem? hc, drop_eq_of_sliceVec hr,
    drop_eq_of_sliceVec hf, drop_eq_of_sliceVec hg, drop_eq_of_u64At ha, drop_eq_of_u64At ht,
    drop_eq_of_sliceVec hb, hend] at hs
  rw [hs]
  simp [encodeHtlcSwapScript]

theorem optionalHashAt_spec {o : Option Hash32} (h : optionalHashAt present pos script = some o) :
    (present ∧ ∃ v, o = some v ∧ script.drop pos = v.bytes ++ script.drop (pos + 32)) ∨
      (present = false ∧ o = none) := by
  unfold optionalHashAt at h
  cases present with
  | true =>
    obtain ⟨v, hv, rfl⟩ := Option.map_eq_some_iff.mp h
    exact .inl ⟨rfl, v, rfl, drop_eq_of_sliceVec hv⟩
  | false => exact .inr ⟨rfl, (Option.some.inj h).symm⟩

/-- What the parser of an order asks of its fields. -/
structure SwapOrderOutput.Constrained (o : SwapOrderOutput) : Prop where
  direction : o.direction = directionSell ∨ o.direction = directionBuy
  hash : o.expectedHash.isSome = decide (o.direction = directionBuy)

theorem encodeOrderScript_of_parse
    (h : parseOrderScript tag script = some o) : encodeOrderScript tag o = script := by
  simp only [parseOrderScript, Option.bind_eq_bind, Option.bind_eq_some_iff, Option.guard_eq_some',
    exists_const, Option.pure_def, Option.some.injEq] at h
  obtain ⟨-, ⟨h0, h1⟩, dir, hd, -, hlen, hash, hhash, conf, hc, irm, hi, amount, ha, maker, hm,
    foreign, hf, expiry, he, orderId, ho, rfl⟩ := h
  have hs := drop_eq_of_getElem? h0
  rw [List.drop_zero, drop_eq_of_getElem? h1, drop_eq_of_getElem? hd, drop_eq_of_getElem? hc,
    drop_eq_of_u64At hi, drop_eq_of_u64At ha, drop_eq_of_sliceVec hm, drop_eq_of_sliceVec hf,
    drop_eq_of_u64At he, drop_eq_of_sliceVec ho] at hs
  rcases optionalHashAt_spec hhash with ⟨hb, v, rfl, hv⟩ | ⟨hb, rfl⟩
  · have hdir : dir = directionBuy := of_decide_eq_true hb
    rw [if_pos hdir] at hlen
    rw [hv, List.drop_eq_nil_of_le (by omega)] at hs
    rw [hs]
    simp [encodeOrderScript, hdir]
  · have hdir : dir ≠ directionBuy := of_decide_eq_false hb
    rw [if_neg hdir] at hlen
    rw [List.drop_eq_nil_of_le (by omega)] at hs
    rw [hs]
    simp [encodeOrderScript, hdir]

theorem head?_of_sliceVec {v : ByteVec (n + 1)} (h : sliceVec (n + 1) start script = some v) :
    script[start]? = v.bytes.head? := by
  have hv := v.length_bytes
  rw [← List.head?_drop, drop_eq_of_sliceVec h]
  cases hb : v.bytes with
  | nil => simp [hb] at hv
  | cons b bs => rfl

theorem parsePubkeys_spec (h : parsePubkeys script n pos = some pks) :
    pks.length = n ∧ script.drop pos = pks.flatMap ByteVec.bytes ++ script.drop (pos + n * 33) ∧
      ∀ pk ∈ pks, pk.bytes.head? = some 0x02 ∨ pk.bytes.head? = some 0x03 := by
  induction n generalizing pos pks with
  | zero =>
    cases Option.some.inj h
    simp
  | succ n ih =>
    simp only [parsePubkeys, Option.bind_eq_bind, Option.bind_eq_some_iff, Option.guard_eq_some',
      exists_const, Option.pure_def, Option.some.injEq] at h
    obtain ⟨hfirst, pk, hpk, rest, hrest, rfl⟩ := h
    obtain ⟨hlen, hdrop, hkeys⟩ := ih hrest
    rw [head?_of_sliceVec hpk] at hfirst
    refine ⟨by simp [hlen], ?_, List.forall_mem_cons.mpr ⟨hfirst, hkeys⟩⟩
    have hpos : pos + (n + 1) * 33 = pos + 33 + n * 33 := by omega
    rw [hpos, drop_eq_of_sliceVec hpk, hdrop]
    simp

theorem parseOrderScript_constrained
    (h : parseOrderScript tag script = some o) : o.Constrained := by
  simp only [parseOrderScript, Option.bind_eq_bind, Option.bind_eq_some_iff, Option.guard_eq_some',
    exists_const, Option.pure_def, Option.some.injEq] at h
  obtain ⟨-, -, dir, -, hdir, -, hash, hhash, conf, -, irm, -, amount, -, maker, -, foreign, -, expiry, -,
    orderId, -, rfl⟩ := h
  refine ⟨hdir, ?_⟩
  rcases optionalHashAt_spec hhash with ⟨hb, v, rfl, -⟩ | ⟨hb, rfl⟩
  · exact hb.symm
  · exact hb.symm

/-- What a parsed script of this kind promises about its keys and thresholds. -/
structure MpsoV1Output.WellFormed (o : MpsoV1Output) : Prop where
  claimLength : o.claimPubkeys.length = o.claimN.toNat
  refundLength : o.refundPubkeys.length = o.refundN.toNat
  claimNodup : o.claimPubkeys.Nodup
  refundNodup : o.refundPubkeys.Nodup
  claimBounds : 1 ≤ o.claimM ∧ o.claimM ≤ o.claimN ∧ o.claimN ≤ 8
  refundBounds : 1 ≤ o.refundM ∧ o.refundM ≤ o.refundN ∧ o.refundN ≤ 8
  secret : mpsoSecretGate o.flags → o.optionalHash.isSome

structure MpsoV1Output.Constrained (o : MpsoV1Output) : Prop extends o.WellFormed where
  flags : o.flags &&& 0xFE = 0
  keys : ∀ pk ∈ o.claimPubkeys ++ o.refundPubkeys, pk.bytes.head? = some 0x02 ∨ pk.bytes.head? = some 0x03
  hash : o.optionalHash.isSome = mpsoSecretGate o.flags

theorem parseMpsoScript_spec {o : MpsoV1Output} (h : parseMpsoScript script = some o) :
    o.Constrained ∧ encodeMpsoScript o = script := by
  simp only [parseMpsoScript, Option.bind_eq_bind, Option.bind_eq_some_iff, Option.guard_eq_some',
    exists_const, Option.pure_def, Option.some.injEq] at h
  obtain ⟨-, ⟨h0, h1⟩, flags, h2, hflags, h3, cn, h4, cm, h5, rn, h6, rm, h7, hcn, hcm, hrn, hrm, hlen, -,
    agreement, ha, cpks, hc, rpks, hr, hcd, hrd, timeout, ht, secret, hs, rfl⟩ := h
  obtain ⟨hcl, hcdrop, hckeys⟩ := parsePubkeys_spec hc
  obtain ⟨hrl, hrdrop, hrkeys⟩ := parsePubkeys_spec hr
  have hkeys := List.forall_mem_append.mpr ⟨hckeys, hrkeys⟩
  have hpos : 40 + cn.toNat * 33 + rn.toNat * 33 = 40 + (cn.toNat + rn.toNat) * 33 := by omega
  rw [hpos] at hrdrop
  have hscript := drop_eq_of_getElem? h0
  rw [List.drop_zero, drop_eq_of_getElem? h1, drop_eq_of_getElem? h2, drop_eq_of_getElem? h3,
    drop_eq_of_getElem? h4, drop_eq_of_getElem? h5, drop_eq_of_getElem? h6, drop_eq_of_getElem? h7,
    drop_eq_of_sliceVec ha, hcdrop, hrdrop, drop_eq_of_u64At ht] at hscript
  rcases optionalHashAt_spec hs with ⟨hg, v, rfl, hv⟩ | ⟨hg, rfl⟩
  · rw [hg, if_pos rfl] at hlen
    rw [hv, List.drop_eq_nil_of_le (by omega)] at hscript
    refine ⟨⟨⟨hcl, hrl, hcd, hrd, ⟨hcm.1, hcm.2, hcn.2⟩, ⟨hrm.1, hrm.2, hrn.2⟩, fun _ => rfl⟩, hflags, hkeys, hg.symm⟩, ?_⟩
    rw [hscript]
    simp [encodeMpsoScript]
  · rw [hg, if_neg (by simp)] at hlen
    rw [List.drop_eq_nil_of_le (by omega)] at hscript
    refine ⟨⟨⟨hcl, hrl, hcd, hrd, ⟨hcm.1, hcm.2, hcn.2⟩, ⟨hrm.1, hrm.2, hrn.2⟩, by simp [hg]⟩, hflags, hkeys, hg.symm⟩, ?_⟩
    rw [hscript]
    simp [encodeMpsoScript]

theorem parse_encodeHtlcSwapScript (tag : UInt8) (o : HtlcSwapOutput) :
    parseHtlcSwapScript tag (encodeHtlcSwapScript tag o) = some o := by
  have hlen : ∀ x, (le64 x).length = 8 := fun x => leList_length 8 _
  have h3 : (encodeHtlcSwapScript tag o).drop 3 = o.recipientPkh.bytes ++ (o.refundPkh.bytes ++
      (o.foreignRecipientPkh.bytes ++ ((leVec 8 o.foreignAmountSats.toNat).bytes ++
        ((leVec 8 o.timeoutHeight.toNat).bytes ++ (o.fundingBinding.bytes ++ []))))) := by
    simp [encodeHtlcSwapScript, le64, leVec]
  have h23 := drop_add_of_drop_eq h3
  have h43 := drop_add_of_drop_eq h23
  have h63 := drop_add_of_drop_eq h43
  have h71 := drop_add_of_drop_eq h63
  have h79 := drop_add_of_drop_eq h71
  have hl : (encodeHtlcSwapScript tag o).length = 87 := by simp [encodeHtlcSwapScript, hlen]
  simp only [parseHtlcSwapScript, hl, sliceVec_of_drop h3, sliceVec_of_drop h23, sliceVec_of_drop h43,
    u64At_of_drop h63, u64At_of_drop h71, sliceVec_of_drop h79]
  simp [encodeHtlcSwapScript]

def hashTail : Option Hash32 → Bytes
  | some v => v.bytes
  | none => []

theorem optionalHashAt_of_drop {o : Option Hash32} (hp : o.isSome = present) (h : script.drop pos = hashTail o) :
    optionalHashAt present pos script = some o := by
  cases o with
  | none =>
    subst hp
    rfl
  | some v =>
    subst hp
    simp [optionalHashAt, sliceVec_of_drop (h.trans (List.append_nil _).symm)]

theorem hashTail_length (o : Option Hash32) : (hashTail o).length = if o.isSome then 32 else 0 := by
  cases o with
  | none => rfl
  | some v => exact v.length_bytes

theorem encodeOrderScript_eq (tag : UInt8) (h : o.Constrained) :
    encodeOrderScript tag o = [tag, 1, o.direction, o.confirmationsRequired] ++
      ((leVec 8 o.irmAmount.toNat).bytes ++ ((leVec 8 o.foreignAmountSats.toNat).bytes ++
        (o.makerIriumdPkh.bytes ++ (o.makerForeignPkh.bytes ++ ((leVec 8 o.expiryHeight.toNat).bytes ++
          (o.orderId.bytes ++ hashTail o.expectedHash)))))) := by
  have hhash := h.hash
  by_cases hdir : o.direction = directionBuy
  · cases hx : o.expectedHash <;> simp [encodeOrderScript, hdir, hx, le64, leVec, hashTail]
  · cases hx : o.expectedHash with
    | some v => simp [hx, hdir] at hhash
    | none => simp [encodeOrderScript, hdir, le64, leVec, hashTail]

theorem parse_encodeOrderScript (tag : UInt8) (h : o.Constrained) :
    parseOrderScript tag (encodeOrderScript tag o) = some o := by
  have henc := encodeOrderScript_eq tag h
  have h4 := (congrArg (List.drop 4) henc).trans (List.drop_left' rfl)
  have h12 := drop_add_of_drop_eq h4
  have h20 := drop_add_of_drop_eq h12
  have h40 := drop_add_of_drop_eq h20
  have h60 := drop_add_of_drop_eq h40
  have h68 := drop_add_of_drop_eq h60
  have h76 := drop_add_of_drop_eq h68
  have hl : (encodeOrderScript tag o).length = if o.direction = directionBuy then 108 else 76 := by
    rw [henc]
    simp only [List.length_append, ByteVec.length_bytes, hashTail_length, h.hash, decide_eq_true_eq]
    split <;> rfl
  simp only [parseOrderScript, Option.bind_eq_bind, Option.bind_eq_some_iff, Option.guard_eq_some', exists_const,
    Option.pure_def, Option.some.injEq]
  refine ⟨?_, ⟨by rw [henc]; rfl, by rw [henc]; rfl⟩, o.direction, by rw [henc]; rfl, h.direction, hl, _,
    optionalHashAt_of_drop h.hash h76, o.confirmationsRequired, by rw [henc]; rfl, _, u64At_of_drop h4, _,
    u64At_of_drop h12, _, sliceVec_of_drop h20, _, sliceVec_of_drop h40, _, u64At_of_drop h60, _,
    sliceVec_of_drop h68, rfl⟩
  rw [hl]
  split <;> simp

theorem parsePubkeys_of_drop (hkeys : ∀ pk ∈ pks, pk.bytes.head? = some 0x02 ∨ pk.bytes.head? = some 0x03)
    (h : script.drop pos = pks.flatMap ByteVec.bytes ++ rest) : parsePubkeys script pks.length pos = some pks := by
  induction pks generalizing pos with
  | nil => rfl
  | cons pk pks ih =>
    rw [List.forall_mem_cons] at hkeys
    rw [List.flatMap_cons, List.append_assoc] at h
    have hfirst := head?_of_sliceVec (sliceVec_of_drop h)
    simp only [List.length_cons, parsePubkeys, hfirst, hkeys.1, guard_true, sliceVec_of_drop h,
      ih hkeys.2 (drop_add_of_drop_eq h), Option.pure_def, Option.bind_eq_bind, Option.bind_some]

theorem length_flatMap_bytes (pks : List PubKey33) : (pks.flatMap ByteVec.bytes).length = pks.length * 33 := by
  induction pks with
  | nil => rfl
  | cons pk pks ih =>
    rw [List.flatMap_cons, List.length_append, ih, pk.length_bytes, List.length_cons]
    omega

theorem drop_length_add {xs : Bytes} (hlen : xs.length = n) (h : script.drop start = xs ++ rest) :
    script.drop (start + n) = rest := by
  rw [← List.drop_drop, h, ← hlen, List.drop_left]

theorem parse_encodeMpsoScript {o : MpsoV1Output} (h : o.Constrained) :
    parseMpsoScript (encodeMpsoScript o) = some o := by
  have hcl := h.claimLength
  have hrl := h.refundLength
  have hclaim : (o.claimPubkeys.flatMap ByteVec.bytes).length = o.claimN.toNat * 33 := by
    rw [length_flatMap_bytes, hcl]
  have hrefund : (o.refundPubkeys.flatMap ByteVec.bytes).length = o.refundN.toNat * 33 := by
    rw [length_flatMap_bytes, hrl]
  have henc : encodeMpsoScript o = [mpsoV1Tag, 0x01, o.flags, 0x00, o.claimN, o.claimM, o.refundN, o.refundM] ++
      (o.agreementHash.bytes ++ (o.claimPubkeys.flatMap ByteVec.bytes ++ (o.refundPubkeys.flatMap ByteVec.bytes ++
        ((leVec 8 o.timeoutHeight.toNat).bytes ++ hashTail o.optionalHash)))) := by
    cases hx : o.optionalHash <;> simp [encodeMpsoScript, hx, le64, leVec, hashTail]
  have h8 := (congrArg (List.drop 8) henc).trans (List.drop_left' rfl)
  have h40 := drop_add_of_drop_eq h8
  have hc := drop_length_add hclaim h40
  have hr := drop_length_add hrefund hc
  rw [show 8 + 32 + o.claimN.toNat * 33 + o.refundN.toNat * 33 =
    40 + (o.claimN.toNat + o.refundN.toNat) * 33 by omega] at hr
  have hl : (encodeMpsoScript o).length = 48 + (o.claimN.toNat + o.refundN.toNat) * 33 +
      (if mpsoSecretGate o.flags then 32 else 0) := by
    rw [henc]
    simp only [List.length_append, ByteVec.length_bytes, hashTail_length, h.hash, hclaim, hrefund, List.length_cons,
      List.length_nil]
    omega
  have hkeys := List.forall_mem_append.mp h.keys
  have hpc := parsePubkeys_of_drop hkeys.1 h40
  have hpr := parsePubkeys_of_drop hkeys.2 hc
  rw [hcl] at hpc
  rw [hrl] at hpr
  have hcn : o.claimN.toNat ≤ 8 := UInt8.le_iff_toNat_le.mp h.claimBounds.2.2
  have hrn : o.refundN.toNat ≤ 8 := UInt8.le_iff_toNat_le.mp h.refundBounds.2.2
  have hmax : (encodeMpsoScript o).length ≤ 640 := by
    rw [hl]
    split <;> omega
  simp only [parseMpsoScript, Option.bind_eq_bind, Option.bind_eq_some_iff, Option.guard_eq_some', exists_const,
    Option.pure_def, Option.some.injEq]
  refine ⟨by omega, ⟨by rw [henc]; rfl, by rw [henc]; rfl⟩, o.flags, by rw [henc]; rfl, h.flags, by rw [henc]; rfl,
    o.claimN, by rw [henc]; rfl, o.claimM, by rw [henc]; rfl, o.refundN, by rw [henc]; rfl, o.refundM,
    by rw [henc]; rfl, ⟨UInt8.le_trans h.claimBounds.1 h.claimBounds.2.1, h.claimBounds.2.2⟩,
    ⟨h.claimBounds.1, h.claimBounds.2.1⟩, ⟨UInt8.le_trans h.refundBounds.1 h.refundBounds.2.1, h.refundBounds.2.2⟩,
    ⟨h.refundBounds.1, h.refundBounds.2.1⟩, hl, hmax, _, sliceVec_of_drop h8, _, hpc, _, hpr, h.claimNodup,
    h.refundNodup, _, u64At_of_drop hr, _, optionalHashAt_of_drop h.hash (drop_add_of_drop_eq hr), rfl⟩

end IriumConsensus
