import IriumConsensus.Lib.Windows
import IriumConsensus.TxWire

namespace IriumConsensus

open ByteCodec Checks Windows

namespace Pool

def putVarint (v : Nat) : Bytes :=
  if v < 0xfd then [UInt8.ofNat v]
  else if v ≤ 0xffff then 0xfd :: leList 2 v
  else if v ≤ 0xffffffff then 0xfe :: leList 4 v
  else 0xff :: leList 8 v

/-- The bytes of a height from the lowest on, without leading zeros. -/
def heightBytes (n : Nat) : Bytes := if n = 0 then [] else UInt8.ofNat n :: heightBytes (n / 256)
  termination_by n
  decreasing_by omega

def bip34Raw (height : Nat) : Bytes :=
  let raw := if height = 0 then [0] else heightBytes height
  if 0x80 ≤ raw.getLast?.getD 0 then raw ++ [0] else raw

def encodeBip34Height (height : Nat) : Bytes := UInt8.ofNat (bip34Raw height).length :: bip34Raw height

def irium : Bytes := [0x49, 0x72, 0x69, 0x75, 0x6d]

/-- The script of the coinbase input without the extranonce. -/
def scriptBase (height : Nat) (bip34Height : Bool) : Bytes :=
  if bip34Height then encodeBip34Height height ++ irium else irium ++ asciiBytes (" " ++ toString height)

def coinbaseHead : Bytes := le32 1 ++ [1, 32] ++ List.replicate 32 0 ++ le32 0xffffffff

def coinbaseTail (reward : UInt64) (pkh : Pkh) (extras : List TxOutput) : Bytes :=
  le32 0xffffffff ++ putVarint (1 + extras.length) ++
    (⟨reward, p2pkhScript pkh⟩ :: extras).flatMap (fun o =>
      le64 o.value ++ putVarint o.scriptPubkey.length ++ o.scriptPubkey) ++
    le32 0

def buildCoinbaseTx (height : Nat) (reward : UInt64) (pkh : Pkh) (extranonce : Bytes) (bip34Height : Bool)
    (extras : List TxOutput) : Bytes :=
  let scriptSig := scriptBase height bip34Height ++ extranonce
  coinbaseHead ++ putVarint scriptSig.length ++ scriptSig ++ coinbaseTail reward pkh extras

def splitMarker : Bytes := [0xfa, 0xce, 0xb0, 0x0c, 0x1c, 0xab, 0xad, 0x1d]

/-- There is no value where the slice past the marker is out of range. -/
def coinbasePrefixSuffix (height : Nat) (reward : UInt64) (pkh : Pkh) (bip34Height : Bool) (extras : List TxOutput) :
    Option (Bytes × Bytes) :=
  splitAround splitMarker (buildCoinbaseTx height reward pkh splitMarker bip34Height extras)

/-- The part of `CanonicalJobSnapshot` that the coinbase is made from. `receiptsRoot` is the root of the pending receipts,
with and without their extensions; `phase20Ext` are the extensions in hex, empty where a receipt has none. -/
structure Snapshot where
  jobId : String
  height : Nat
  coinbaseValue : UInt64
  payoutPkh : Pkh
  extranonce1 : Bytes
  phase20Ext : List String
  receiptsRoot : Bool → Hash32

def extranonce2Size : Nat := 4

/-- The pool's own copy of the gate, which never opens on mainnet. -/
def phase20ProductionActive (F : NodeEnv) (height : Nat) : Bool :=
  if networkIdByte F = 0 then false
  else activeFrom (F.activationHeight .multiRoleReward) height && activeFrom (F.activationHeight .fairnessMatrix) height

def phase20ExtVersion : UInt8 := 1

def roleRewardPkhsFromExtHex (extHex : String) : Option (PerRole Pkh) := do
  let b ← decodeHex extHex
  if b.length < 61 ∨ b.head? ≠ some phase20ExtVersion then none
  else
    let compute ← sliceVec 20 1 b
    let verify ← sliceVec 20 21 b
    let support ← sliceVec 20 41 b
    return ⟨compute, verify, support⟩

def skipClaim (b : Bytes) : Option Bytes :=
  if b.length < 2 then none else some (b.drop (2 + leNat (b.take 2)))

def feeTermsFromExtHex (extHex : String) : Option (UInt16 × Pkh) := do
  let b ← decodeHex extHex
  if b.length < 61 ∨ b.head? ≠ some phase20ExtVersion then none
  else
    let rest ← skipClaim (b.drop 61)
    let rest ← skipClaim rest
    let rest ← skipClaim rest
    if rest.length < 22 then none
    else
      let feePkh ← sliceVec 20 2 rest
      return (UInt16.ofNat (leNat (rest.take 2)), feePkh)

def applyFee (gross : UInt64) (feeBps : UInt16) : UInt64 × UInt64 :=
  let fee := UInt64.ofNat (gross.toNat * feeBps.toNat / 10000)
  (gross - fee, fee)

def irx1Output (root : Hash32) : TxOutput := ⟨0, [0x6a, 0x24] ++ asciiBytes "irx1" ++ root.bytes⟩

def payOutput (value : UInt64) (pkh : Pkh) : TxOutput := ⟨value, p2pkhScript pkh⟩

def feeOutputs (feeBps : UInt16) (feeAmount : UInt64) (feePkh : Pkh) : List TxOutput :=
  if 0 < feeBps then [payOutput feeAmount feePkh] else []

/-- The outputs for a receipt with an extension: the commitment, the four roles, the fee. -/
def multiRoleOutputs (snapshot : Snapshot) (extHex : String) : Except String (List TxOutput) := do
  let role ← orFail (roleRewardPkhsFromExtHex extHex) "phase20 coinbase: malformed phase20_ext"
  let amounts := multiRoleAmounts snapshot.coinbaseValue.toNat
  let (feeBps, feePkh) := (feeTermsFromExtHex extHex).getD (0, ByteVec.zero 20)
  let primary := UInt64.ofNat amounts.1
  let (primaryNet, feeAmount) := if 0 < feeBps then applyFee primary feeBps else (primary, 0)
  return [irx1Output (snapshot.receiptsRoot true), payOutput primaryNet snapshot.payoutPkh,
    payOutput (.ofNat amounts.2.compute) role.compute, payOutput (.ofNat amounts.2.verify) role.verify,
    payOutput (.ofNat amounts.2.support) role.support] ++ feeOutputs feeBps feeAmount feePkh

def nativeOutputs (F : NodeEnv) (snapshot : Snapshot) : Except String (List TxOutput) :=
  match snapshot.phase20Ext with
  | [] => .ok [payOutput snapshot.coinbaseValue snapshot.payoutPkh]
  | first :: _ =>
    if phase20ProductionActive F snapshot.height && !first.isEmpty then multiRoleOutputs snapshot first
    else .ok [payOutput snapshot.coinbaseValue snapshot.payoutPkh, irx1Output (snapshot.receiptsRoot false)]

/-- Here every length is written as one byte. -/
def nativeTail (outputs : List TxOutput) : Bytes :=
  le32 0xffffffff ++ [UInt8.ofNat outputs.length] ++
    outputs.flatMap (fun o => le64 o.value ++ [UInt8.ofNat o.scriptPubkey.length] ++ o.scriptPubkey) ++ le32 0

def buildNativeRewardableCoinbase (F : NodeEnv) (snapshot : Snapshot) (extranonce2 : Bytes) : Except String Bytes := do
  failIf (extranonce2.length ≠ extranonce2Size)
    s!"invalid extranonce2 size: expected {extranonce2Size} got {extranonce2.length}"
  let scriptSig := scriptBase snapshot.height true ++ (snapshot.extranonce1 ++ extranonce2)
  let outputs ← nativeOutputs F snapshot
  return coinbaseHead ++ [UInt8.ofNat scriptSig.length] ++ scriptSig ++ nativeTail outputs

def nativeMarkerTail : Bytes := [0x1c, 0xab, 0xad, 0x1d]

def nativeRewardableNotifySplit (F : NodeEnv) (snapshot : Snapshot) : Except String (Bytes × Bytes) := do
  let full ← buildNativeRewardableCoinbase F snapshot nativeMarkerTail
  orFail (splitAround (snapshot.extranonce1 ++ nativeMarkerTail) full) "native notify split: extranonce marker missing"

/-- The coinbase of the solve that `decode_native_rewardable_submit` makes of a share. -/
def decodeNativeRewardableSubmit (F : NodeEnv) (snapshot : Snapshot) (jobId extranonce2Hex : String) :
    Except String Bytes := do
  failIf (jobId ≠ snapshot.jobId) "stale share"
  let extranonce2 ← orFail (decodeHex extranonce2Hex) "extranonce2 decode"
  buildNativeRewardableCoinbase F snapshot extranonce2

theorem getElem?_mid {α : Type} {a b c : List α} {i : Nat} (h : a.length ≤ i) (h' : i < a.length + b.length) :
    (a ++ (b ++ c))[i]? = b[i - a.length]? := by
  rw [List.getElem?_append_right h, List.getElem?_append_left (by omega)]

section

variable {head raw rest e s : Bytes}

theorem splitMarker_absent (hhead : 0xfa ∉ head) (hraw : raw.length ≤ 4) (hrest : 0xfa ∉ rest)
    (hfirst : rest.head? = some 0x49) :
    ∀ i < (head ++ (raw ++ rest)).length, ¬splitMarker <+: (head ++ (raw ++ rest) ++ (splitMarker ++ s)).drop i := by
  intro i hi h
  have hget : ∀ j < 8, (head ++ (raw ++ (rest ++ (splitMarker ++ s))))[i + j]? = splitMarker[j]? := fun j hj => by
    simpa using getElem?_of_prefix_drop h hj
  have hpos : 0 < rest.length := by
    cases rest with
    | nil => cases hfirst
    | cons b rest => exact Nat.succ_pos _
  simp only [List.length_append] at hi
  by_cases hin : i < head.length
  · have h0 := hget 0 (by decide)
    rw [Nat.add_zero, List.getElem?_append_left hin] at h0
    exact hhead (List.mem_of_getElem? h0)
  · by_cases hinraw : i < head.length + raw.length
    · -- the first byte of `rest` would stand in the marker
      have hbyte := hget (head.length + raw.length - i) (by omega)
      rw [show i + (head.length + raw.length - i) = head.length + raw.length by omega,
        List.getElem?_append_right (by omega), getElem?_mid (by omega) (by omega),
        show head.length + raw.length - head.length - raw.length = 0 by omega, ← List.head?_eq_getElem?, hfirst] at hbyte
      exact absurd (List.mem_of_getElem? hbyte.symm) (by decide)
    · have h0 := hget 0 (by decide)
      rw [Nat.add_zero, List.getElem?_append_right (by omega), getElem?_mid (by omega) (by omega)] at h0
      exact hrest (List.mem_of_getElem? h0)

theorem nativeMarker_absent (hhead : 0x1c ∉ head ∧ 0x1d ∉ head) (hraw : raw.length ≤ 4)
    (hlast : raw[3]? ≠ some 0x1d) (he : e.length ≤ 8) :
    ∀ i < (head ++ (raw ++ irium)).length, ¬(e ++ nativeMarkerTail) <+:
      (head ++ (raw ++ irium) ++ ((e ++ nativeMarkerTail) ++ s)).drop i := by
  intro i hi h
  have hn : (e ++ nativeMarkerTail).length = e.length + 4 := List.length_append
  have hp : (head ++ (raw ++ irium)).length = head.length + raw.length + 5 := by
    simp [irium]
    omega
  have hget := fun j (hj : j < e.length + 4) => getElem?_of_prefix_drop h (hn ▸ hj)
  have htail : ∀ j < 4, (e ++ nativeMarkerTail)[e.length + j]? = nativeMarkerTail[j]? := fun j hj => by
    rw [List.getElem?_append_right (by omega), Nat.add_sub_cancel_left]
  by_cases hin : i + (e.length + 4) ≤ (head ++ (raw ++ irium)).length
  · -- the whole marker would stand before the extranonce
    have hbyte : ∀ j < 4, (head ++ (raw ++ irium))[i + e.length + j]? = nativeMarkerTail[j]? := by
      intro j hj
      have hfull := hget (e.length + j) (by omega)
      rwa [List.getElem?_append_left (by omega), ← Nat.add_assoc, htail j hj] at hfull
    have h1d := hbyte 3 (by decide)
    have h1c := hbyte 0 (by decide)
    by_cases hlow : i + e.length + 3 < head.length
    · rw [List.getElem?_append_left hlow] at h1d
      exact hhead.2 (List.mem_of_getElem? h1d)
    · by_cases hmid : i + e.length + 3 < head.length + raw.length
      · rw [getElem?_mid (by omega) hmid] at h1d
        by_cases hfirst : i + e.length + 0 < head.length
        · rw [List.getElem?_append_left hfirst] at h1c
          exact hhead.1 (List.mem_of_getElem? h1c)
        · rw [show i + e.length + 3 - head.length = 3 by omega] at h1d
          exact hlast h1d
      · rw [List.getElem?_append_right (by omega), List.getElem?_append_right (by omega)] at h1d
        exact absurd (List.mem_of_getElem? h1d) (by decide)
  · -- the marker would overlap itself, from `k` bytes before the extranonce on
    obtain ⟨k, hk⟩ : ∃ k, i + k = head.length + raw.length + 5 := ⟨_, Nat.add_sub_of_le (by omega)⟩
    have hperiod : ∀ j, j + k < e.length + 4 → (e ++ nativeMarkerTail)[j + k]? = (e ++ nativeMarkerTail)[j]? := by
      intro j hj
      rw [← hget _ hj, List.getElem?_append_right (by omega), hp, show i + (j + k) - _ = j by omega,
        List.getElem?_append_left (by omega)]
    have hword : ∀ c < 5, c < k → (e ++ nativeMarkerTail)[k - 1 - c]? = irium[4 - c]? := by
      intro c hc hck
      rw [← hget _ (by omega), List.getElem?_append_left (by omega), List.getElem?_append_right (by omega),
        List.getElem?_append_right (by omega)]
      congr 1
      omega
    have hletters : ∀ c < 5, irium[4 - c]? ≠ some 0x1c ∧ irium[4 - c]? ≠ some 0x1d := by decide
    by_cases hshort : k ≤ 3
    · have h1d := hperiod (e.length + (3 - k)) (by omega)
      rw [show e.length + (3 - k) + k = e.length + 3 by omega, htail 3 (by omega), htail (3 - k) (by omega)] at h1d
      have hunlike : ∀ j < 3, nativeMarkerTail[j]? ≠ nativeMarkerTail[3]? := by decide
      exact hunlike (3 - k) (by omega) h1d.symm
    by_cases hlong : e.length < k
    · have hm := hword 0 (by omega) (by omega)
      rw [show k - 1 - 0 = e.length + (k - 1 - e.length) by omega, htail _ (by omega)] at hm
      have hunlike : ∀ j < 4, nativeMarkerTail[j]? ≠ irium[4 - 0]? := by decide
      exact hunlike _ (by omega) hm
    have h1d := hperiod (e.length + 3 - k) (by omega)
    rw [show e.length + 3 - k + k = e.length + 3 by omega, htail 3 (by omega)] at h1d
    have h1c := hperiod (e.length - k) (by omega)
    rw [show e.length - k + k = e.length + 0 by omega, htail 0 (by omega)] at h1c
    -- one of these two bytes is a letter of the word, unless the word is the first half of an extranonce of eight bytes
    by_cases hsame : e.length + 4 ≤ 2 * k
    · have hletter := hword (2 * k - 4 - e.length) (by omega) (by omega)
      rw [show k - 1 - (2 * k - 4 - e.length) = e.length + 3 - k by omega, ← h1d] at hletter
      exact (hletters _ (by omega)).2 hletter.symm
    by_cases hsame' : e.length + 1 ≤ 2 * k
    · have hletter := hword (2 * k - 1 - e.length) (by omega) (by omega)
      rw [show k - 1 - (2 * k - 1 - e.length) = e.length - k by omega, ← h1c] at hletter
      exact (hletters _ (by omega)).1 hletter.symm
    · have hletter := hword 3 (by omega) (by omega)
      have hagain := hperiod 0 (by omega)
      rw [show 0 + k = e.length - k by omega, ← h1c] at hagain
      rw [show k - 1 - 3 = 0 by omega, ← hagain] at hletter
      exact (hletters 3 (by omega)).1 hletter.symm

end

section

variable {height : Nat}

theorem heightBytes_length {n k : Nat} (h : n < 256 ^ k) : (heightBytes n).length ≤ k := by
  induction k generalizing n with
  | zero =>
    obtain rfl : n = 0 := by simpa using h
    rw [heightBytes]
    rfl
  | succ k ih =>
    rw [heightBytes]
    split
    next => exact Nat.zero_le _
    next => exact Nat.succ_le_succ (ih (by rw [Nat.pow_succ] at h; omega))

theorem bip34Raw_bytes (h : height < 2 ^ 24) : (bip34Raw height).length ≤ 4 ∧ (bip34Raw height)[3]? ≠ some 0x1d := by
  have hlen : (if height = 0 then [0] else heightBytes height).length ≤ 3 := by
    split
    next => decide
    next => exact heightBytes_length h
  rw [bip34Raw]
  generalize (if height = 0 then [0] else heightBytes height) = raw at *
  split
  next =>
    refine ⟨by rw [List.length_append, List.length_singleton]; omega, fun hget => ?_⟩
    rw [List.getElem?_append_right hlen] at hget
    exact absurd (List.mem_of_getElem? hget) (by decide)
  next => exact ⟨by omega, by rw [List.getElem?_eq_none hlen]; exact nofun⟩

theorem ofNat_ne {n m : Nat} (h : n < m) (hm : m < 256) : UInt8.ofNat n ≠ UInt8.ofNat m := by
  intro heq
  have hnat := congrArg UInt8.toNat heq
  rw [UInt8.toNat_ofNat', UInt8.toNat_ofNat'] at hnat
  omega

theorem decimal_bytes (h : height < 2 ^ 24) : (asciiBytes (" " ++ toString height)).length ≤ 9 ∧
    0xfa ∉ asciiBytes (" " ++ toString height) := by
  have hchars : (" " ++ toString height).toList = ' ' :: Nat.toDigits 10 height := by
    simp [Nat.repr]
  have hdigits : (Nat.toDigits 10 height).length ≤ 8 :=
    (Nat.length_toDigits_le_iff (by decide) (by decide)).mpr (h.trans (by decide))
  rw [asciiBytes, hchars]
  refine ⟨by rw [List.length_map, List.length_cons]; omega, fun hmem => ?_⟩
  obtain ⟨c, hc, heq⟩ := List.mem_map.mp hmem
  have hsmall : c.toNat < 0xfa := by
    rcases List.mem_cons.mp hc with rfl | hc
    · decide
    · have hd := Nat.isDigit_of_mem_toDigits (by decide) (by decide) hc
      simp only [Char.isDigit, Bool.and_eq_true, decide_eq_true_eq] at hd
      have := UInt32.le_iff_toNat_le.mp hd.2
      exact lt_of_le_of_lt this (by decide)
  exact ofNat_ne hsmall (by decide) heq

theorem scriptBase_length (bip34Height : Bool) (h : height < 2 ^ 24) : (scriptBase height bip34Height).length ≤ 14 := by
  rw [scriptBase]
  split
  next =>
    have := (bip34Raw_bytes h).1
    simp [encodeBip34Height, irium]
    omega
  next =>
    have := (decimal_bytes h).1
    simp only [List.length_append, irium, List.length_cons, List.length_nil]
    omega

theorem scriptBase_parts (bip34Height : Bool) (h : height < 2 ^ 24) :
    ∃ lead raw rest, scriptBase height bip34Height = lead ++ (raw ++ rest) ∧ 0xfa ∉ lead ∧ raw.length ≤ 4 ∧
      0xfa ∉ rest ∧ rest.head? = some 0x49 := by
  rw [scriptBase]
  split
  next =>
    have hlen := (bip34Raw_bytes h).1
    refine ⟨[UInt8.ofNat (bip34Raw height).length], bip34Raw height, irium, rfl, ?_, hlen, by decide, rfl⟩
    rw [List.mem_singleton]
    exact (ofNat_ne (Nat.lt_of_le_of_lt hlen (by decide)) (by decide)).symm
  next =>
    refine ⟨[], [], irium ++ asciiBytes (" " ++ toString height), rfl, List.not_mem_nil, Nat.zero_le _, ?_, rfl⟩
    rw [List.mem_append, not_or]
    exact ⟨by decide, (decimal_bytes h).2⟩

theorem putVarint_small {n : Nat} (h : n < 0xfd) : putVarint n = [UInt8.ofNat n] := if_pos h

end

section

variable {height : Nat} {reward : UInt64} {pkh : Pkh} {bip34Height : Bool} {extras : List TxOutput}

theorem coinbasePrefixSuffix_eq (h : height < 2 ^ 24) :
    coinbasePrefixSuffix height reward pkh bip34Height extras =
      some (coinbaseHead ++ ([UInt8.ofNat ((scriptBase height bip34Height).length + 8)] ++ scriptBase height bip34Height),
        coinbaseTail reward pkh extras) := by
  have hlen := scriptBase_length bip34Height h
  obtain ⟨lead, raw, rest, hbase, hlead, hraw, hrest, hfirst⟩ := scriptBase_parts bip34Height h
  have hfull : buildCoinbaseTx height reward pkh splitMarker bip34Height extras =
      (coinbaseHead ++ [UInt8.ofNat ((scriptBase height bip34Height).length + 8)] ++ lead) ++ (raw ++ rest) ++
        (splitMarker ++ coinbaseTail reward pkh extras) := by
    simp only [buildCoinbaseTx, List.length_append]
    rw [putVarint_small (by simp only [splitMarker, List.length_cons, List.length_nil]; omega), hbase]
    simp [splitMarker]
  rw [coinbasePrefixSuffix, hfull, splitAround_eq (splitMarker_absent ?_ hraw hrest hfirst), hbase]
  · simp
  · simp only [List.mem_append, not_or, List.mem_singleton]
    exact ⟨⟨by decide, (ofNat_ne (show _ < 0xfa by omega) (by decide)).symm⟩, hlead⟩

end

section

variable {F : NodeEnv} {snapshot : Snapshot} {outputs : List TxOutput} {scriptSig extranonce2 : Bytes}

def Small (outputs : List TxOutput) : Prop := outputs.length < 0xfd ∧ ∀ o ∈ outputs, o.scriptPubkey.length < 0xfd

theorem nativeOutputs_small (h : nativeOutputs F snapshot = .ok outputs) : Small outputs := by
  have hirx1 : ∀ root, (irx1Output root).scriptPubkey.length < 0xfd := fun root => by simp [irx1Output, asciiBytes]
  have hpay : ∀ value pkh, (payOutput value pkh).scriptPubkey.length < 0xfd := fun value pkh => by
    simp [payOutput, p2pkhScript]
  have hfee : ∀ bps value pkh, (feeOutputs bps value pkh).length ≤ 1 ∧
      ∀ o ∈ feeOutputs bps value pkh, o.scriptPubkey.length < 0xfd := fun bps value pkh => by
    rw [feeOutputs]
    split
    next => simpa using hpay value pkh
    next => simp
  rw [nativeOutputs] at h
  split at h
  next =>
    obtain rfl := Except.ok.inj h
    simpa [Small] using hpay _ _
  next =>
    split at h
    next =>
      obtain ⟨role, -, h⟩ := bind_eq_ok.mp h
      obtain rfl := Except.ok.inj h
      refine ⟨?_, fun o ho => ?_⟩
      · rw [List.length_append]
        exact Nat.lt_of_le_of_lt (Nat.add_le_add_left (hfee _ _ _).1 _) (show 5 + 1 < 0xfd by decide)
      · rcases List.mem_append.mp ho with ho | ho
        · simp only [List.mem_cons, List.not_mem_nil, or_false] at ho
          rcases ho with rfl | rfl | rfl | rfl | rfl
          · exact hirx1 _
          all_goals exact hpay _ _
        · exact (hfee _ _ _).2 o ho
    next =>
      obtain rfl := Except.ok.inj h
      simp [Small, hirx1, hpay]

def coinbaseOf (scriptSig : Bytes) (outputs : List TxOutput) : Transaction :=
  ⟨1, [⟨ByteVec.zero 32, 0xffffffff, scriptSig, 0xffffffff⟩], outputs, 0⟩

theorem coinbaseOf_serialize (scriptSig : Bytes) (outputs : List TxOutput) :
    (coinbaseOf scriptSig outputs).serialize = coinbaseHead ++ [UInt8.ofNat scriptSig.length] ++ scriptSig ++
      (le32 0xffffffff ++ [UInt8.ofNat outputs.length] ++ outputs.flatMap TxOutput.serialize ++ le32 0) := by
  simp [coinbaseOf, coinbaseHead, Transaction.serialize, TxInput.serialize, ByteVec.zero]

theorem nativeTail_eq (h : Small outputs) :
    nativeTail outputs =
      le32 0xffffffff ++ [UInt8.ofNat outputs.length] ++ outputs.flatMap TxOutput.serialize ++ le32 0 := by
  have houts : outputs.flatMap (fun o => le64 o.value ++ [UInt8.ofNat o.scriptPubkey.length] ++ o.scriptPubkey) =
      outputs.flatMap TxOutput.serialize :=
    List.flatMap_congr fun o ho => by rw [TxOutput.serialize, writeVarint, if_pos (h.2 o ho)]
  rw [nativeTail, houts]

theorem coinbaseTail_eq {reward : UInt64} {pkh : Pkh} {extras : List TxOutput} (h : extras.length < 0xfc) :
    coinbaseTail reward pkh extras = le32 0xffffffff ++ [UInt8.ofNat (payOutput reward pkh :: extras).length] ++
      (payOutput reward pkh :: extras).flatMap TxOutput.serialize ++ le32 0 := by
  rw [coinbaseTail, putVarint_small (by omega), List.length_cons, Nat.add_comm]
  rfl

theorem decode_coinbaseOf (hscript : scriptSig.length < 256) (hcount : outputs.length < 256)
    (hlen : ∀ o ∈ outputs, o.scriptPubkey.length < 2 ^ 64) :
    decodeFullTx (coinbaseOf scriptSig outputs).serialize = .ok (coinbaseOf scriptSig outputs) :=
  decodeFullTx_serialize_iff.mpr ⟨(by decide : 1 < 256), hcount, by simpa [coinbaseOf] using hscript, hlen⟩

theorem buildNativeRewardableCoinbase_eq (houts : nativeOutputs F snapshot = .ok outputs)
    (hsize : extranonce2.length = extranonce2Size) :
    buildNativeRewardableCoinbase F snapshot extranonce2 =
      .ok (coinbaseOf (scriptBase snapshot.height true ++ (snapshot.extranonce1 ++ extranonce2)) outputs).serialize := by
  rw [buildNativeRewardableCoinbase, hsize, houts, coinbaseOf_serialize, ← nativeTail_eq (nativeOutputs_small houts)]
  rfl

def nativeHead (snapshot : Snapshot) : Bytes :=
  coinbaseHead ++ ([UInt8.ofNat ((scriptBase snapshot.height true).length + (snapshot.extranonce1.length + 4))] ++
    scriptBase snapshot.height true)

theorem coinbaseOf_native (houts : nativeOutputs F snapshot = .ok outputs) (hsize : extranonce2.length = 4) :
    (coinbaseOf (scriptBase snapshot.height true ++ (snapshot.extranonce1 ++ extranonce2)) outputs).serialize =
      nativeHead snapshot ++ ((snapshot.extranonce1 ++ extranonce2) ++ nativeTail outputs) := by
  rw [coinbaseOf_serialize, ← nativeTail_eq (nativeOutputs_small houts), List.length_append, List.length_append, hsize,
    nativeHead]
  simp only [List.append_assoc]

theorem nativeRewardableNotifySplit_eq (hheight : snapshot.height < 2 ^ 24) (hsize : snapshot.extranonce1.length ≤ 8)
    (houts : nativeOutputs F snapshot = .ok outputs) :
    nativeRewardableNotifySplit F snapshot = .ok (nativeHead snapshot, nativeTail outputs) := by
  obtain ⟨hraw, hlast⟩ := bip34Raw_bytes hheight
  have hlen := scriptBase_length true hheight
  obtain ⟨lead, hhead, hlead⟩ : ∃ lead, nativeHead snapshot = lead ++ (bip34Raw snapshot.height ++ irium) ∧
      0x1c ∉ lead ∧ 0x1d ∉ lead := by
    refine ⟨coinbaseHead ++ [UInt8.ofNat ((scriptBase snapshot.height true).length + (snapshot.extranonce1.length + 4)),
      UInt8.ofNat (bip34Raw snapshot.height).length], by simp [nativeHead, scriptBase, encodeBip34Height], ?_⟩
    simp only [List.mem_append, not_or, List.mem_cons, List.not_mem_nil, not_false_eq_true, and_true]
    exact ⟨⟨by decide, (ofNat_ne (m := 0x1c) (by omega) (by decide)).symm,
      (ofNat_ne (m := 0x1c) (by omega) (by decide)).symm⟩,
      by decide, (ofNat_ne (m := 0x1d) (by omega) (by decide)).symm, (ofNat_ne (m := 0x1d) (by omega) (by decide)).symm⟩
  rw [nativeRewardableNotifySplit, buildNativeRewardableCoinbase_eq houts rfl, coinbaseOf_native houts rfl]
  change orFail (splitAround _ _) _ = _
  rw [hhead, splitAround_eq (nativeMarker_absent hlead hraw hlast hsize), orFail]

end

/-- The split of the legacy path is right for four bytes of `extranonce1` and for no other size; the native one for
every size. -/
theorem coinbase_split_iff (F : NodeEnv) (height : Nat) (e1 e2 : Bytes) (hheight : height < 2 ^ 24)
    (h1 : e1.length ≤ 8) (h2 : e2.length = extranonce2Size) :
    (∀ reward pkh bip34Height extras, ∃ cb1 cb2,
      coinbasePrefixSuffix height reward pkh bip34Height extras = some (cb1, cb2) ∧
      (cb1 ++ e1 ++ e2 ++ cb2 = buildCoinbaseTx height reward pkh (e1 ++ e2) bip34Height extras ↔ e1.length = 4) ∧
      (e1.length = 4 → extras.length < 252 → (∀ o ∈ extras, o.scriptPubkey.length < 2 ^ 64) →
        decodeFullTx (cb1 ++ e1 ++ e2 ++ cb2) =
          .ok (coinbaseOf (scriptBase height bip34Height ++ (e1 ++ e2)) (payOutput reward pkh :: extras)))) ∧
    ∀ snapshot outputs, snapshot.height = height → snapshot.extranonce1 = e1 →
      nativeOutputs F snapshot = .ok outputs →
      ∃ cb1 cb2, nativeRewardableNotifySplit F snapshot = .ok (cb1, cb2) ∧
        decodeNativeRewardableSubmit F snapshot snapshot.jobId (encodeHex e2) = .ok (cb1 ++ e1 ++ e2 ++ cb2) ∧
        decodeFullTx (cb1 ++ e1 ++ e2 ++ cb2) = .ok (coinbaseOf (scriptBase height true ++ (e1 ++ e2)) outputs) := by
  refine ⟨fun reward pkh bip34Height extras => ⟨_, _, coinbasePrefixSuffix_eq hheight, ?_, ?_⟩, ?_⟩
  · have hlen := scriptBase_length bip34Height hheight
    have hsum : (scriptBase height bip34Height ++ (e1 ++ e2)).length =
        (scriptBase height bip34Height).length + (e1.length + 4) := by
      rw [List.length_append, List.length_append, h2, extranonce2Size]
    rw [buildCoinbaseTx, hsum, putVarint_small (by omega)]
    simp only [List.append_assoc, List.append_cancel_left_eq, List.cons_append, List.nil_append, List.cons.injEq, and_true]
    refine ⟨fun heq => ?_, fun heq => by rw [heq]⟩
    by_contra hne
    rcases Nat.lt_or_gt_of_ne hne with hlt | hgt
    · exact ofNat_ne (by omega) (by omega) heq.symm
    · exact ofNat_ne (by omega) (by omega) heq
  · intro hfour hcount hscripts
    have hlen := scriptBase_length bip34Height hheight
    have hsum : (scriptBase height bip34Height ++ (e1 ++ e2)).length = (scriptBase height bip34Height).length + 8 := by
      rw [List.length_append, List.length_append, h2, hfour, extranonce2Size]
    have hbytes := coinbaseOf_serialize (scriptBase height bip34Height ++ (e1 ++ e2)) (payOutput reward pkh :: extras)
    rw [hsum, ← coinbaseTail_eq hcount] at hbytes
    simp only [List.append_assoc] at hbytes ⊢
    rw [← hbytes]
    refine decode_coinbaseOf (by omega) (by rw [List.length_cons]; omega) fun o ho => ?_
    rcases List.mem_cons.mp ho with rfl | ho
    · simp [payOutput, p2pkhScript]
    · exact hscripts o ho
  · rintro snapshot outputs rfl rfl houts
    have hlen := scriptBase_length true hheight
    have hnative := coinbaseOf_native houts h2
    have hsmall := nativeOutputs_small houts
    refine ⟨_, _, nativeRewardableNotifySplit_eq hheight h1 houts, ?_, ?_⟩
    · rw [decodeNativeRewardableSubmit, decodeHex_encodeHex]
      change failIf _ _ >>= (fun _ => buildNativeRewardableCoinbase F snapshot e2) = _
      rw [buildNativeRewardableCoinbase_eq houts h2, hnative]
      simp
    · rw [List.append_assoc, List.append_assoc, ← List.append_assoc snapshot.extranonce1, ← hnative]
      refine decode_coinbaseOf ?_ (hsmall.1.trans (by decide)) fun o ho => (hsmall.2 o ho).trans (by decide)
      simp only [List.length_append, h2, extranonce2Size]
      omega

theorem coinbase_split_four_bytes :
    ∃ cb1 cb2, coinbasePrefixSuffix 1 5000000000 (ByteVec.zero 20) true [] = some (cb1, cb2) ∧
      decodeFullTx (cb1 ++ [0, 0, 0, 1] ++ [1, 2, 3, 4] ++ cb2) =
        .ok (coinbaseOf (scriptBase 1 true ++ ([0, 0, 0, 1] ++ [1, 2, 3, 4])) [payOutput 5000000000 (ByteVec.zero 20)]) := by
  obtain ⟨cb1, cb2, hsplit, -, hdecode⟩ := (coinbase_split_iff devnetNode 1 [0, 0, 0, 1] [1, 2, 3, 4]
    (by decide) (by decide) rfl).1 5000000000 (ByteVec.zero 20) true []
  exact ⟨cb1, cb2, hsplit, hdecode rfl (by decide) (by simp)⟩

/-- With five bytes of `extranonce1` the coinbase has one byte more than its script length says. -/
theorem coinbase_split_five_bytes :
    ((coinbasePrefixSuffix 1 5000000000 (ByteVec.zero 20) true []).map fun cb =>
        (decodeFullTx (cb.1 ++ [0, 0, 0, 0, 1] ++ [1, 2, 3, 4] ++ cb.2)).toOption) = some none ∧
      (decodeFullTx (buildCoinbaseTx 1 5000000000 (ByteVec.zero 20) ([0, 0, 0, 0, 1] ++ [1, 2, 3, 4]) true [])).isOk =
        true := by
  decide +kernel

end Pool

end IriumConsensus
