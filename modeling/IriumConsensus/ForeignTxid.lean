import IriumConsensus.ForeignTx
import IriumConsensus.Lib.Codec
import IriumConsensus.RealHash

namespace IriumConsensus

open ByteCodec

variable {raw rest start : Bytes} {outputs : List (UInt64 × ForeignScript)}

theorem readVarint_local (err : String) : Local (readVarint err) := by
  have hvec (n : Nat) {α : Type} (f : ByteVec n → α) : Local (readVec n err >>= fun v => pure (f v)) :=
    (readVec_local n err).bind fun v => local_pure (f v)
  refine (readU8_local err).bind fun first => ?_
  refine .ite ((hvec 8 _).bind fun x => local_pure x.toNat) (.ite ((hvec 4 _).bind fun x => local_pure x.toNat) ?_)
  exact .ite ((hvec 2 _).bind fun x => local_pure x.toNat) (local_pure first.toNat)

theorem skipBytes_local (len : Nat) : Local (skipBytes len) := (readBytes_local len "").bind fun _ => local_pure ()

theorem readForeignCount_local : Local readForeignCount := by
  refine (readVarint_local "").bind fun count => ?_
  split
  · exact (local_throw "").bind fun _ => local_pure count
  · exact local_pure count

theorem readForeignInput_local : Local readForeignInput :=
  (skipBytes_local 36).bind fun _ => (readVarint_local "").bind fun len => (skipBytes_local len).bind fun _ =>
    skipBytes_local 4

theorem readForeignOutput_local : Local readForeignOutput :=
  ((readVec_local 8 "").bind fun _ => local_pure _).bind fun _ => (readVarint_local "").bind fun len =>
    (readBytes_local len "").bind fun _ => local_pure _

/-- The part of a transaction between its start and its witness, which both parsers walk through. -/
def readForeignParts : Reader (Nat × List (UInt64 × ForeignScript)) := do
  let inCount ← readForeignCount
  let _ ← readMany readForeignInput inCount
  let outCount ← readForeignCount
  let outputs ← readMany readForeignOutput outCount
  return (inCount, outputs)

theorem readForeignParts_local : Local readForeignParts :=
  readForeignCount_local.bind fun inCount => (readForeignInput_local.readMany inCount).bind fun _ =>
    readForeignCount_local.bind fun outCount => (readForeignOutput_local.readMany outCount).bind fun _ =>
      local_pure _

theorem readForeignTx_parts (h : readForeignTx raw = .ok (outputs, rest)) :
    ∃ segwit start inCount afterOutputs, readForeignStart raw = .ok (segwit, start) ∧
      readForeignParts start = .ok ((inCount, outputs), afterOutputs) ∧ (segwit = false → rest = afterOutputs) := by
  simp only [readForeignTx, reader_bind_eq_ok] at h
  obtain ⟨segwit, start, hstart, inCount, afterIn, hin, inputs, afterInputs, hinputs, outCount, afterOut, hout,
    outs, afterOutputs, houts, hend⟩ := h
  have hparts : readForeignParts start = .ok ((inCount, outs), afterOutputs) := by
    simp only [readForeignParts, reader_bind_eq_ok]
    exact ⟨_, _, hin, _, _, hinputs, _, _, hout, _, _, houts, rfl⟩
  refine ⟨segwit, start, inCount, afterOutputs, hstart, ?_, ?_⟩ <;> split_ifs at hend with hs
  all_goals simp only [reader_bind_eq_ok, reader_pure, Except.ok.injEq, Prod.mk.injEq] at hend
  · obtain ⟨_, _, _, rfl, -⟩ := hend
    exact hparts
  · rw [← hend.1]
    exact hparts
  · simp [hs]
  · exact fun _ => hend.2.symm

theorem readForeignBody_of_parts {afterOutputs : Bytes} {inCount : Nat}
    (h : readForeignParts start = .ok ((inCount, outputs), afterOutputs)) :
    readForeignBody start = .ok (inCount, afterOutputs) := by
  simp only [readForeignParts, reader_bind_eq_ok, reader_pure, Except.ok.injEq, Prod.mk.injEq] at h
  obtain ⟨_, _, hin, _, _, hinputs, _, _, hout, _, _, houts, ⟨rfl, rfl⟩, rfl⟩ := h
  simp only [readForeignBody, reader_bind_eq_ok]
  exact ⟨_, _, hin, _, _, hinputs, _, _, hout, _, _, houts, rfl⟩

def strippedSerialization (raw : Bytes) : Option Bytes :=
  if raw.length < 10 ∨ foreignTxMaxLen < raw.length then none
  else if raw[4]? ≠ some 0x00 then some raw
  else if raw[5]? = some 0x00 then none
  else strippedTx raw

theorem btcTxid_eq_map (C : Crypto) (raw : Bytes) :
    btcTxid C raw = (strippedSerialization raw).map (sha256d C) := by
  unfold btcTxid strippedSerialization
  split_ifs <;> rfl

theorem readForeignStart_spec {segwit : Bool} (h : readForeignStart raw = .ok (segwit, start)) :
    (segwit = false ∧ raw[4]? ≠ some 0x00 ∧ start = raw.drop 4) ∨
      (segwit ∧ raw[4]? = some 0x00 ∧ start = raw.drop 6) := by
  simp only [readForeignStart, skipBytes, reader_bind_eq_ok] at h
  obtain ⟨_, rest, ⟨_, _, hversion, hpure⟩, h⟩ := h
  cases hpure
  unfold readBytes at hversion
  split_ifs at hversion with hlen
  have hdrop : raw.drop 4 = rest := (Prod.mk.inj (Except.ok.inj hversion)).2
  have h4 : raw[4]? = rest[0]? := by rw [← hdrop, List.getElem?_drop]
  split at h
  next => cases h
  next tail =>
    cases tail with
    | nil => cases h
    | cons flag tail =>
      dsimp only at h
      split_ifs at h
      cases h
      refine .inr ⟨rfl, by simpa using h4, ?_⟩
      rw [show raw.drop 6 = (raw.drop 4).drop 2 by rw [List.drop_drop], hdrop]
      rfl
  next hne hzero =>
    cases h
    refine .inl ⟨rfl, ?_, hdrop.symm⟩
    rw [h4]
    intro hb
    obtain ⟨tail, htail⟩ : ∃ tail, start = 0 :: tail := by
      cases start with
      | nil => simp at hb
      | cons b tail => exact ⟨tail, by simpa using hb⟩
    exact hzero tail htail

theorem strippedSerialization_parts {s : Bytes} (hs : strippedSerialization raw = some s)
    (hread : readForeignTx raw = .ok (outputs, rest)) (hrest : rest.length = 4) :
    ∃ inCount tail, tail.length = 4 ∧ readForeignParts (s.drop 4) = .ok ((inCount, outputs), tail) := by
  obtain ⟨segwit, start, inCount, afterOutputs, hstart, hparts, hlegacy⟩ := readForeignTx_parts hread
  unfold strippedSerialization at hs
  split_ifs at hs with hlen h4 h5
  · rcases readForeignStart_spec hstart with ⟨hseg, -, rfl⟩ | ⟨-, hzero, -⟩
    · rw [← Option.some.inj hs]
      exact ⟨inCount, afterOutputs, hlegacy hseg ▸ hrest, hparts⟩
    · exact absurd hzero h4
  · rcases readForeignStart_spec hstart with ⟨-, hone, -⟩ | ⟨-, -, rfl⟩
    · exact absurd hone h4
    · obtain ⟨pre, hpre, hreads⟩ := readForeignParts_local _ _ _ hparts
      simp only [strippedTx, readForeignBody_of_parts hparts] at hs
      split at hs
      next => simp at hs
      next locktime _ =>
        split_ifs at hs with hlock
        have hpre' : (raw.drop 6).take ((raw.drop 6).length - afterOutputs.length) = pre := by
          rw [hpre, List.length_append, Nat.add_sub_cancel, List.take_left]
        have hversion : (raw.take 4).length = 4 := List.length_take_of_le (by omega)
        refine ⟨inCount, locktime.take 4, List.length_take_of_le (by omega), ?_⟩
        rw [← Option.some.inj hs, hpre', List.append_assoc, List.drop_left' hversion]
        exact hreads _

theorem parseBtcTxOutputs_eq_some {outs : List ForeignOutput} (h : parseBtcTxOutputs raw = some outs) :
    ∃ os rest, readForeignTx raw = .ok (os, rest) ∧ rest.length = 4 ∧
      outs = os.mapIdx fun i o => ⟨o.1, o.2, UInt32.ofNat i⟩ := by
  unfold parseBtcTxOutputs at h
  split_ifs at h
  split at h
  next os rest hread =>
    split_ifs at h with hrest
    exact ⟨os, rest, hread, hrest, (Option.some.inj h).symm⟩
  next => simp at h

/-- Two transactions with one id have the same outputs, in whatever form each of them is given. -/
theorem foreign_txid_outputs {C : Crypto} {S : Set Bytes} (hinj : Set.InjOn (sha256d C) S) {r₁ r₂ : Bytes}
    (hmem₁ : ∀ s ∈ strippedSerialization r₁, s ∈ S) (hmem₂ : ∀ s ∈ strippedSerialization r₂, s ∈ S)
    {id₁ id₂ : Hash32} {outs₁ outs₂ : List ForeignOutput} (hid₁ : btcTxid C r₁ = some id₁)
    (hid₂ : btcTxid C r₂ = some id₂) (houts₁ : parseBtcTxOutputs r₁ = some outs₁)
    (houts₂ : parseBtcTxOutputs r₂ = some outs₂) (hid : id₁ = id₂) : outs₁ = outs₂ := by
  rw [btcTxid_eq_map, Option.map_eq_some_iff] at hid₁ hid₂
  obtain ⟨s₁, hs₁, rfl⟩ := hid₁
  obtain ⟨s₂, hs₂, rfl⟩ := hid₂
  obtain rfl := hinj (hmem₁ s₁ hs₁) (hmem₂ s₂ hs₂) hid
  obtain ⟨os₁, rest₁, hread₁, hrest₁, rfl⟩ := parseBtcTxOutputs_eq_some houts₁
  obtain ⟨os₂, rest₂, hread₂, hrest₂, rfl⟩ := parseBtcTxOutputs_eq_some houts₂
  obtain ⟨n₁, tail₁, -, hparts₁⟩ := strippedSerialization_parts hs₁ hread₁ hrest₁
  obtain ⟨n₂, tail₂, -, hparts₂⟩ := strippedSerialization_parts hs₂ hread₂ hrest₂
  rw [hparts₁] at hparts₂
  rw [(Prod.mk.inj (Prod.mk.inj (Except.ok.inj hparts₂)).1).2]

def oneOutputBody : Bytes := 1 :: List.replicate 41 0 ++ 1 :: List.replicate 9 0

def legacyTx : Bytes := [1, 0, 0, 0] ++ oneOutputBody ++ [0, 0, 0, 0]

def segwitTx : Bytes := [1, 0, 0, 0, 0, 1] ++ oneOutputBody ++ [0, 0, 0, 0, 0]

theorem foreign_txid_outputs_segwit :
    legacyTx ≠ segwitTx ∧ btcTxid shaCrypto legacyTx = btcTxid shaCrypto segwitTx ∧
      (parseBtcTxOutputs legacyTx).isSome ∧ parseBtcTxOutputs legacyTx = parseBtcTxOutputs segwitTx := by
  have hs₁ : strippedSerialization legacyTx = some legacyTx := by decide
  have hs₂ : strippedSerialization segwitTx = some legacyTx := by decide
  have houts₁ : parseBtcTxOutputs legacyTx = some [⟨0, .other, 0⟩] := by decide
  have houts₂ : parseBtcTxOutputs segwitTx = some [⟨0, .other, 0⟩] := by decide
  have hid₁ : btcTxid shaCrypto legacyTx = some (sha256d shaCrypto legacyTx) := by
    rw [btcTxid_eq_map, hs₁, Option.map_some]
  have hid₂ : btcTxid shaCrypto segwitTx = some (sha256d shaCrypto legacyTx) := by
    rw [btcTxid_eq_map, hs₂, Option.map_some]
  have hsame := foreign_txid_outputs (Set.injOn_singleton _ legacyTx) (by simp [hs₁]) (by simp [hs₂]) hid₁ hid₂
    houts₁ houts₂ rfl
  refine ⟨by decide, hid₁.trans hid₂.symm, by rw [houts₁]; rfl, ?_⟩
  rw [houts₁, houts₂, hsame]

end IriumConsensus
