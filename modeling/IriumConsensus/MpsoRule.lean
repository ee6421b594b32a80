import IriumConsensus.ScriptCodec
import IriumConsensus.Spend
import IriumConsensus.WitnessExact

namespace IriumConsensus

open ByteCodec Checks

variable {C : Crypto} {tx : Transaction} {inputIndex height n : Nat} {script body rest e : Bytes} {bitmap : UInt8}
  {mpso : MpsoV1Output} {sigs : List Bytes}

/-- The keys whose bit is set, the first key having bit `i`. -/
def selectedKeys (bitmap : UInt8) : Nat → List PubKey33 → List PubKey33
  | _, [] => []
  | i, pk :: pks => if bitSet bitmap i then pk :: selectedKeys bitmap (i + 1) pks else selectedKeys bitmap (i + 1) pks

/-- The bitmap selects `m` of the first `n` keys and none beyond. -/
def Selects (bitmap : UInt8) (n m : Nat) : Prop :=
  (∀ i < 8, n ≤ i → bitSet bitmap i = false) ∧ ((List.range n).filter (bitSet bitmap)).length = m

/-- One valid signature for each selected key, in the order of the keys. -/
def SelectedSign (C : Crypto) (tx : Transaction) (inputIndex : Nat) (script : Bytes) (bitmap : UInt8) (n m : UInt8)
    (pubkeys : List PubKey33) (sigs : List Bytes) : Prop :=
  Selects bitmap n.toNat m.toNat ∧
    List.Forall₂ (fun sig pk => verifySigWithPubkey C tx inputIndex script sig pk.bytes) sigs
      (selectedKeys bitmap 0 pubkeys)

def Unlocks (C : Crypto) (mpso : MpsoV1Output) : Option Bytes → Prop
  | some preimage => mpsoSecretGate mpso.flags ∧ 1 ≤ preimage.length ∧ preimage.length ≤ 64 ∧
      mpso.optionalHash = some (C.sha256 preimage)
  | none => mpsoSecretGate mpso.flags = false

theorem encodeSignatures_cons {sig : Bytes} :
    encodeSignatures (sig :: sigs) = some e ↔
      ∃ a b, encodeChunk sig = some a ∧ encodeSignatures sigs = some b ∧ a ++ b = e := by
  cases ha : encodeChunk sig with
  | none => simp [encodeSignatures, ha]
  | some a => cases hb : sigs.mapM encodeChunk <;> simp [encodeSignatures, ha, hb]

theorem checkMpsoSigs_iff {i : Nat} {pks : List PubKey33} :
    checkMpsoSigs C tx inputIndex script bitmap i pks body = some rest ↔
      ∃ sigs e, encodeSignatures sigs = some e ∧ body = e ++ rest ∧
        List.Forall₂ (fun sig pk => verifySigWithPubkey C tx inputIndex script sig pk.bytes) sigs
          (selectedKeys bitmap i pks) := by
  induction pks generalizing i body with
  | nil =>
    rw [checkMpsoSigs, selectedKeys, Option.some.injEq]
    constructor
    · rintro rfl
      exact ⟨[], [], rfl, rfl, .nil⟩
    · rintro ⟨_, e, he, rfl, hall⟩
      cases hall
      obtain rfl := Option.some.inj he
      rfl
  | cons pk pks ih =>
    rw [checkMpsoSigs, selectedKeys]
    by_cases hbit : bitSet bitmap i
    · rw [if_neg (by simp [hbit]), if_pos hbit]
      constructor
      · intro h
        split at h
        next => cases h
        next sig mid hread =>
          split at h
          next hv =>
            obtain ⟨a, ha, rfl⟩ := readChunk_ok.mp hread
            obtain ⟨sigs, e, he, rfl, hall⟩ := ih.mp h
            exact ⟨sig :: sigs, a ++ e, encodeSignatures_cons.mpr ⟨a, e, ha, he, rfl⟩, by simp, .cons hv hall⟩
          next => cases h
      · rintro ⟨_, _, he, rfl, hall⟩
        cases hall with
        | cons hv hall =>
          obtain ⟨a, e, ha, htail, rfl⟩ := encodeSignatures_cons.mp he
          rw [readChunk_ok.mpr ⟨a, ha, List.append_assoc _ _ _⟩]
          dsimp only
          rw [if_pos hv]
          exact ih.mpr ⟨_, e, htail, rfl, hall⟩
    · rw [if_pos (by simpa using hbit), if_neg hbit]
      exact ih

theorem countOnes_eq (hn : n ≤ 8) (bitmap : UInt8) (h : bitmap &&& ~~~(validMask (UInt8.ofNat n)) = 0) :
    ((List.range n).filter (bitSet bitmap)).length = countOnes bitmap := by
  have all : ∀ m : Fin 9, ∀ b : Fin 256,
      UInt8.ofNat b.val &&& ~~~(validMask (UInt8.ofNat m.val)) = 0 →
        ((List.range m.val).filter (bitSet (UInt8.ofNat b.val))).length = countOnes (UInt8.ofNat b.val) := by
    decide +kernel
  have hb : UInt8.ofNat bitmap.toNat = bitmap := UInt8.ofNat_toNat
  have hall := all ⟨n, by omega⟩ ⟨bitmap.toNat, bitmap.toNat_lt⟩
  simp only [hb] at hall
  exact hall h

theorem mask_iff (hn : n ≤ 8) (bitmap : UInt8) :
    bitmap &&& ~~~(validMask (UInt8.ofNat n)) = 0 ↔ ∀ i < 8, n ≤ i → bitSet bitmap i = false := by
  have all : ∀ m : Fin 9, ∀ b : Fin 256, UInt8.ofNat b.val &&& ~~~(validMask (UInt8.ofNat m.val)) = 0 ↔
      ∀ i < 8, m.val ≤ i → bitSet (UInt8.ofNat b.val) i = false := by
    decide +kernel
  have hall := all ⟨n, by omega⟩ ⟨bitmap.toNat, bitmap.toNat_lt⟩
  rwa [UInt8.ofNat_toNat] at hall

theorem checkMofN_iff {n m : UInt8} {pubkeys : List PubKey33} (hn : n ≤ 8) :
    checkMofN C tx inputIndex script n m pubkeys body = some rest ↔
      ∃ bitmap sigs e, encodeSignatures sigs = some e ∧ body = bitmap :: e ++ rest ∧
        SelectedSign C tx inputIndex script bitmap n m pubkeys sigs := by
  have hn' : n.toNat ≤ 8 := UInt8.le_iff_toNat_le.mp hn
  have hselects : ∀ bitmap, Selects bitmap n.toNat m.toNat ↔
      bitmap &&& ~~~(validMask n) = 0 ∧ countOnes bitmap = m.toNat := by
    intro bitmap
    rw [Selects, ← mask_iff hn', UInt8.ofNat_toNat]
    refine and_congr_right fun hmask => ?_
    rw [countOnes_eq hn' bitmap (by rwa [UInt8.ofNat_toNat])]
  cases body with
  | nil => simp [checkMofN]
  | cons b body =>
    simp only [checkMofN, refuse_eq_some, not_not, checkMpsoSigs_iff, SelectedSign, hselects, List.cons_append,
      List.cons.injEq]
    constructor
    · rintro ⟨hmask, hones, sigs, e, he, rfl, hall⟩
      exact ⟨b, sigs, e, he, ⟨rfl, rfl⟩, ⟨hmask, hones⟩, hall⟩
    · rintro ⟨_, sigs, e, he, ⟨rfl, rfl⟩, ⟨hmask, hones⟩, hall⟩
      exact ⟨hmask, hones, sigs, e, he, rfl, hall⟩

def PreimageTail : Option Bytes → Bytes → Prop
  | none, tail => tail = []
  | some preimage, tail => preimage.length ≤ 64 ∧ encodeChunk preimage = some tail

theorem encodeMpsoClaimWitness_eq_some {preimage : Option Bytes} :
    encodeMpsoClaimWitness bitmap sigs preimage = some e ↔
      ∃ signed tail, encodeSignatures sigs = some signed ∧ PreimageTail preimage tail ∧
        1 :: (bitmap :: signed ++ tail) = e := by
  cases preimage <;> simp [encodeMpsoClaimWitness, PreimageTail, Option.bind_eq_some_iff, and_assoc]

theorem checkMpsoPreimage_iff {expected : Hash32} :
    checkMpsoPreimage C expected rest ↔
      ∃ preimage, PreimageTail (some preimage) rest ∧ C.sha256 preimage = expected := by
  unfold checkMpsoPreimage
  constructor
  · intro h
    split at h
    next => cases h
    next preimage rest hread =>
      obtain ⟨e, he, rfl⟩ := readChunk_ok.mp hread
      simp only [refuse_eq_true, not_lt, not_not, decide_eq_true_eq] at h
      obtain ⟨hlen, hhash, rfl⟩ := h
      exact ⟨preimage, ⟨hlen, by rw [he, List.append_nil]⟩, hhash⟩
  · rintro ⟨preimage, ⟨hlen, he⟩, hhash⟩
    rw [readChunk_ok.mpr ⟨rest, he, (List.append_nil _).symm⟩]
    simp [hlen, hhash]

/-- Before the timeout: the claim keys have signed and the secret, if any, is shown. -/
def MpsoClaims (C : Crypto) (tx : Transaction) (inputIndex : Nat) (script scriptSig : Bytes) (height : Nat)
    (mpso : MpsoV1Output) : Prop :=
  height < mpso.timeoutHeight.toNat ∧ ∃ bitmap sigs preimage,
    encodeMpsoClaimWitness bitmap sigs preimage = some scriptSig ∧
    SelectedSign C tx inputIndex script bitmap mpso.claimN mpso.claimM mpso.claimPubkeys sigs ∧ Unlocks C mpso preimage

/-- From the timeout on: the refund keys have signed. -/
def MpsoRefunds (C : Crypto) (tx : Transaction) (inputIndex : Nat) (script scriptSig : Bytes) (height : Nat)
    (mpso : MpsoV1Output) : Prop :=
  mpso.timeoutHeight.toNat ≤ height ∧ ∃ bitmap sigs, encodeMpsoRefundWitness bitmap sigs = some scriptSig ∧
    SelectedSign C tx inputIndex script bitmap mpso.refundN mpso.refundM mpso.refundPubkeys sigs

theorem verifyMpsoRefund_iff (hw : mpso.Constrained) :
    verifyMpsoRefund C tx inputIndex body height mpso ↔
      MpsoRefunds C tx inputIndex (encodeMpsoScript mpso) (2 :: body) height mpso := by
  simp only [verifyMpsoRefund, refuse_eq_true, not_lt, decide_eq_true_eq, checkMofN_iff hw.refundBounds.2.2,
    List.append_nil, MpsoRefunds, encodeMpsoRefundWitness, Option.bind_eq_bind, Option.bind_eq_some_iff,
    Option.pure_def, Option.some.injEq, List.cons_append, List.nil_append, List.cons.injEq, true_and]
  refine and_congr_right fun _ => ?_
  constructor
  · rintro ⟨bitmap, sigs, e, he, rfl, hsign⟩
    exact ⟨bitmap, sigs, ⟨e, he, rfl⟩, hsign⟩
  · rintro ⟨bitmap, sigs, ⟨e, he, rfl⟩, hsign⟩
    exact ⟨bitmap, sigs, e, he, rfl, hsign⟩

theorem claim_tail_iff (hw : mpso.Constrained) :
    (if mpsoSecretGate mpso.flags then
      match mpso.optionalHash with
      | some expected => checkMpsoPreimage C expected rest
      | none => false
    else decide (rest = [])) ↔ ∃ preimage, PreimageTail preimage rest ∧ Unlocks C mpso preimage := by
  have hhash := hw.hash
  cases hgate : mpsoSecretGate mpso.flags with
  | false =>
    rw [if_neg (by simp), decide_eq_true_eq]
    constructor
    · exact fun h => ⟨none, h, hgate⟩
    · rintro ⟨preimage, htail, hunlock⟩
      cases preimage with
      | none => exact htail
      | some pre => exact absurd (hgate.symm.trans hunlock.1) (by simp)
  | true =>
    rw [hgate] at hhash
    obtain ⟨expected, hexpected⟩ := Option.isSome_iff_exists.mp hhash
    rw [if_pos rfl, hexpected]
    dsimp only
    rw [checkMpsoPreimage_iff]
    constructor
    · rintro ⟨pre, htail, rfl⟩
      exact ⟨some pre, htail, hgate, List.length_pos_iff.mpr (encodeChunk_eq_some.mp htail.2).1.1, htail.1, hexpected⟩
    · rintro ⟨preimage, htail, hunlock⟩
      cases preimage with
      | none => exact absurd (hgate.symm.trans hunlock) (by simp)
      | some pre => exact ⟨pre, htail, Option.some.inj (hunlock.2.2.2.symm.trans hexpected)⟩

theorem verifyMpsoClaim_iff (hw : mpso.Constrained) :
    verifyMpsoClaim C tx inputIndex body height mpso ↔
      MpsoClaims C tx inputIndex (encodeMpsoScript mpso) (1 :: body) height mpso := by
  simp only [verifyMpsoClaim, refuse_eq_true, not_le, MpsoClaims, encodeMpsoClaimWitness_eq_some, List.cons.injEq,
    true_and]
  refine and_congr_right fun _ => ?_
  constructor
  · intro h
    split at h
    next => cases h
    next rest hsigs =>
      obtain ⟨bitmap, sigs, e, he, rfl, hsign⟩ := (checkMofN_iff hw.claimBounds.2.2).mp hsigs
      obtain ⟨preimage, htail, hunlock⟩ := (claim_tail_iff hw).mp h
      exact ⟨bitmap, sigs, preimage, ⟨e, rest, he, htail, rfl⟩, hsign, hunlock⟩
  · rintro ⟨bitmap, sigs, preimage, ⟨e, rest, he, htail, rfl⟩, hsign, hunlock⟩
    rw [(checkMofN_iff hw.claimBounds.2.2).mpr ⟨bitmap, sigs, e, he, rfl, hsign⟩]
    exact (claim_tail_iff hw).mpr ⟨preimage, htail, hunlock⟩

theorem verifyMpsoSpend_iff (hw : mpso.Constrained) {scriptSig : Bytes} :
    verifyMpsoSpend C tx inputIndex scriptSig height mpso ↔ scriptSig.length ≤ mpsoV1MaxWitnessSize ∧
      (MpsoClaims C tx inputIndex (encodeMpsoScript mpso) scriptSig height mpso ∨
        MpsoRefunds C tx inputIndex (encodeMpsoScript mpso) scriptSig height mpso) := by
  have hclaim : MpsoClaims C tx inputIndex (encodeMpsoScript mpso) scriptSig height mpso →
      scriptSig.head? = some 1 := by
    rintro ⟨-, _, _, _, henc, -⟩
    obtain ⟨_, _, -, -, rfl⟩ := encodeMpsoClaimWitness_eq_some.mp henc
    rfl
  have hrefund : MpsoRefunds C tx inputIndex (encodeMpsoScript mpso) scriptSig height mpso →
      scriptSig.head? = some 2 := by
    rintro ⟨-, _, _, henc, -⟩
    simp only [encodeMpsoRefundWitness, Option.bind_eq_bind, Option.bind_eq_some_iff, Option.pure_def,
      Option.some.injEq] at henc
    obtain ⟨_, -, rfl⟩ := henc
    rfl
  rw [verifyMpsoSpend.eq_def, refuse_eq_true, not_lt]
  refine and_congr_right fun _ => ?_
  cases scriptSig with
  | nil => exact iff_of_false (by simp) (by rintro (h | h); exacts [(by cases hclaim h), (by cases hrefund h)])
  | cons tag body =>
    dsimp only
    split_ifs with h1 h2
    · subst h1
      rw [verifyMpsoClaim_iff hw]
      exact (or_iff_left fun h => absurd (hrefund h) (by simp)).symm
    · subst h2
      rw [verifyMpsoRefund_iff hw]
      exact (or_iff_right fun h => absurd (hclaim h) (by simp)).symm
    · refine iff_of_false (by simp) ?_
      rintro (h | h)
      · exact h1 (Option.some.inj (hclaim h))
      · exact h2 (Option.some.inj (hrefund h))

end IriumConsensus
