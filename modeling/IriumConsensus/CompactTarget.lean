import IriumConsensus.Relay
import Mathlib.Tactic.IntervalCases
import Mathlib.Tactic.NormNum

namespace IriumConsensus

open ByteCodec

variable {m value : Nat}

theorem two_pow_eight_mul (n : Nat) : 2 ^ (8 * n) = 256 ^ n := Nat.pow_mul 2 8 n

theorem Target.toTarget_eq (t : Target) :
    t.toTarget = t.bits.toNat % 2 ^ 24 * 256 ^ (t.bits.toNat / 2 ^ 24) / 256 ^ 3 := by
  unfold Target.toTarget
  dsimp only
  generalize t.bits.toNat / 2 ^ 24 = k
  generalize t.bits.toNat % 2 ^ 24 = m
  split
  next h =>
    obtain ⟨d, hd⟩ := Nat.exists_eq_add_of_le h
    rw [Nat.shiftRight_eq_div_pow, hd, Nat.add_sub_cancel_left, Nat.pow_add, Nat.mul_comm m,
      Nat.mul_div_mul_left _ _ (Nat.pow_pos (by decide)), two_pow_eight_mul]
  next h =>
    obtain ⟨d, rfl⟩ := Nat.exists_eq_add_of_lt (not_le.mp h)
    rw [Nat.shiftLeft_eq, show 3 + d + 1 = d + 1 + 3 by omega, Nat.add_sub_cancel, Nat.pow_add,
      ← Nat.mul_assoc, Nat.mul_div_cancel _ (by decide), two_pow_eight_mul]

theorem toTarget_ofParts {k : Nat} (hk : k < 256) (hm : m < 2 ^ 24) :
    Target.toTarget ⟨UInt32.ofNat (k * 2 ^ 24 + m)⟩ = m * 256 ^ k / 256 ^ 3 := by
  rw [Target.toTarget_eq]
  have hfit : (UInt32.ofNat (k * 2 ^ 24 + m)).toNat = k * 2 ^ 24 + m := by
    rw [UInt32.toNat_ofNat']
    omega
  rw [hfit, show (k * 2 ^ 24 + m) / 2 ^ 24 = k by omega, show (k * 2 ^ 24 + m) % 2 ^ 24 = m by omega]

/-- The distance of neighbouring compact targets around the value. -/
def compactStep (value : Nat) : Nat := 256 ^ ((value.log2 + 1) / 8 - 2)

theorem compactStep_pos (value : Nat) : 0 < compactStep value := Nat.pow_pos (by decide)

/-- The values that the eight exponent bits can express. -/
def compactLimit : Nat := 2 ^ 2039

theorem lt_compactLimit (h : value < 2 ^ 256) : value < compactLimit :=
  lt_of_lt_of_le h (Nat.pow_le_pow_right (by decide) (by decide))

theorem lt_two_pow_log2 (value : Nat) : value < 2 ^ (value.log2 + 1) := Nat.lt_log2_self

theorem two_pow_log2_le (h : value ≠ 0) : 2 ^ value.log2 ≤ value := Nat.log2_self_le h

theorem log2_lt_of_lt {n : Nat} (hn : 0 < n) (h : value < 2 ^ n) : value.log2 < n := by
  by_cases h0 : value = 0
  · subst h0
    simpa using hn
  · exact (Nat.log2_lt h0).mpr h

/-- `m` stands for the three leading bytes of the value; a set sign bit costs the last of them. -/
structure LeadingBytes (value m : Nat) : Prop where
  lt : m < 2 ^ 24
  sign : 2 ^ 23 ≤ m ↔ value.log2 % 8 = 7
  plain : value.log2 % 8 ≠ 7 →
    m * 256 ^ byteLength value / 256 ^ 3 = value / compactStep value * compactStep value
  shifted : value.log2 % 8 = 7 →
    m / 256 * 256 ^ (byteLength value + 1) / 256 ^ 3 = value / compactStep value * compactStep value

theorem leadingBytes_short (h0 : value ≠ 0) (hk : byteLength value ≤ 3) :
    LeadingBytes value (value <<< (8 * (3 - byteLength value))) := by
  have hlo := two_pow_log2_le h0
  have hhi := lt_two_pow_log2 value
  rw [Nat.shiftLeft_eq]
  have hb : value.log2 < 24 := by
    unfold byteLength at hk
    omega
  constructor <;> unfold byteLength <;> try unfold compactStep
  all_goals
    generalize value.log2 = l at *
    interval_cases l <;> norm_num at * <;> omega

theorem leadingBytes_long (hk : 3 < byteLength value) :
    LeadingBytes value (value >>> (8 * (byteLength value - 3))) := by
  have h0 : value ≠ 0 := by
    rintro rfl
    simp [byteLength] at hk
  have hlo := two_pow_log2_le h0
  have hhi := lt_two_pow_log2 value
  obtain ⟨d, hd⟩ := Nat.exists_eq_add_of_lt hk
  have hlog : value.log2 = 8 * (d + 3) + value.log2 % 8 := by
    unfold byteLength at hd
    omega
  have hr : value.log2 % 8 < 8 := Nat.mod_lt _ (by decide)
  have hpos : 0 < 256 ^ (d + 1) := Nat.pow_pos (by decide)
  have hscale : ∀ n, 2 ^ (8 * (d + 1) + n) = 2 ^ n * 256 ^ (d + 1) := by
    intro n
    rw [Nat.pow_add, two_pow_eight_mul, Nat.mul_comm]
  have hm : value >>> (8 * (byteLength value - 3)) = value / 256 ^ (d + 1) := by
    rw [hd, show 3 + d + 1 - 3 = d + 1 by omega, Nat.shiftRight_eq_div_pow, two_pow_eight_mul]
  rw [hm]
  constructor
  case lt =>
    rw [Nat.div_lt_iff_lt_mul hpos, ← hscale]
    exact lt_of_lt_of_le hhi (Nat.pow_le_pow_right (by decide) (by omega))
  case sign =>
    rw [Nat.le_div_iff_mul_le hpos, ← hscale]
    constructor
    · intro hge
      have := (Nat.pow_lt_pow_iff_right (by decide : 1 < 2)).mp (lt_of_le_of_lt hge hhi)
      omega
    · intro hs
      exact le_trans (Nat.pow_le_pow_right (by decide) (by omega)) hlo
  case plain =>
    intro hs
    have hstep : compactStep value = 256 ^ (d + 1) := by
      unfold compactStep
      rw [show (value.log2 + 1) / 8 - 2 = d + 1 by omega]
    rw [hstep, hd, show 3 + d + 1 = d + 1 + 3 by omega, Nat.pow_add 256 (d + 1) 3, ← Nat.mul_assoc,
      Nat.mul_div_cancel _ (by decide)]
  case shifted =>
    intro hs
    have hstep : compactStep value = 256 ^ (d + 2) := by
      unfold compactStep
      rw [show (value.log2 + 1) / 8 - 2 = d + 2 by omega]
    rw [hstep, hd, Nat.div_div_eq_div_mul, ← Nat.pow_succ, show 3 + d + 1 + 1 = d + 2 + 3 by omega,
      Nat.pow_add 256 (d + 2) 3, ← Nat.mul_assoc, Nat.mul_div_cancel _ (by decide)]

theorem LeadingBytes.toTarget (hm : LeadingBytes value m) (h : value.log2 < 2039) :
    Target.toTarget (if 2 ^ 23 ≤ m % 2 ^ 24
      then ⟨UInt32.ofNat ((byteLength value + 1) * 2 ^ 24 + m % 2 ^ 24 / 256)⟩
      else ⟨UInt32.ofNat (byteLength value * 2 ^ 24 + m % 2 ^ 24)⟩) =
      value / compactStep value * compactStep value := by
  have hlt := hm.lt
  have hlen : byteLength value = value.log2 / 8 + 1 := rfl
  rw [Nat.mod_eq_of_lt hlt]
  split
  next hs =>
    have h7 := hm.sign.mp hs
    rw [toTarget_ofParts (by omega) (by omega)]
    exact hm.shifted h7
  next hs =>
    rw [toTarget_ofParts (by omega) hlt]
    exact hm.plain fun h7 => hs (hm.sign.mpr h7)

theorem toTarget_fromTarget (h : value < compactLimit) :
    (Target.fromTarget value).toTarget = value / compactStep value * compactStep value := by
  have hlog : value.log2 < 2039 := log2_lt_of_lt (by decide) h
  unfold Target.fromTarget
  split
  next h0 => subst h0; decide
  next h0 =>
    dsimp only
    split
    next hk => exact (leadingBytes_short h0 hk).toTarget hlog
    next hk => exact (leadingBytes_long (not_le.mp hk)).toTarget hlog

theorem toTarget_fromTarget_le (h : value < compactLimit) :
    (Target.fromTarget value).toTarget ≤ value := by
  rw [toTarget_fromTarget h]
  exact Nat.div_mul_le_self _ _

theorem toTarget_fromTarget_of_dvd (h : value < compactLimit) (hd : compactStep value ∣ value) :
    (Target.fromTarget value).toTarget = value := by
  rw [toTarget_fromTarget h, Nat.div_mul_cancel hd]

theorem toTarget_fromTarget_error (h : value < compactLimit) (h0 : 0 < value) :
    (value - (Target.fromTarget value).toTarget) * 2 ^ 15 < value := by
  have hlo := two_pow_log2_le h0.ne'
  have herr : value - (Target.fromTarget value).toTarget < compactStep value := by
    rw [toTarget_fromTarget h, Nat.mul_comm, ← Nat.mod_eq_sub_mul_div]
    exact Nat.mod_lt _ (compactStep_pos value)
  by_cases hsmall : value.log2 < 23
  · have hone : compactStep value = 1 := by
      unfold compactStep
      rw [show (value.log2 + 1) / 8 - 2 = 0 by omega, Nat.pow_zero]
    omega
  · have hstep : compactStep value * 2 ^ 15 ≤ value := by
      unfold compactStep
      rw [← two_pow_eight_mul, ← Nat.pow_add]
      exact le_trans (Nat.pow_le_pow_right (by decide) (by omega)) hlo
    exact lt_of_lt_of_le (Nat.mul_lt_mul_of_pos_right herr (by decide)) hstep

theorem toTarget_fromTarget_mono {a b : Nat} (hab : a ≤ b) (h : b < compactLimit) :
    (Target.fromTarget a).toTarget ≤ (Target.fromTarget b).toTarget := by
  have ha := lt_of_le_of_lt hab h
  by_cases h0 : a = 0
  · subst h0
    exact Nat.zero_le _
  have hlog : a.log2 ≤ b.log2 := (Nat.le_log2 (by omega)).mpr (le_trans (two_pow_log2_le h0) hab)
  rcases Nat.lt_or_ge ((a.log2 + 1) / 8) ((b.log2 + 1) / 8) with hlt | hge
  · -- the least value of the higher class is a multiple of its step
    have hfloor : 2 ^ (8 * ((b.log2 + 1) / 8) - 1) ≤ (Target.fromTarget b).toTarget := by
      rw [toTarget_fromTarget h]
      have hdvd : compactStep b ∣ 2 ^ (8 * ((b.log2 + 1) / 8) - 1) := by
        unfold compactStep
        rw [← two_pow_eight_mul]
        exact Nat.pow_dvd_pow 2 (by omega)
      have hb : 2 ^ (8 * ((b.log2 + 1) / 8) - 1) ≤ b :=
        le_trans (Nat.pow_le_pow_right (by decide) (by omega)) (two_pow_log2_le (by omega))
      calc 2 ^ (8 * ((b.log2 + 1) / 8) - 1)
          = 2 ^ (8 * ((b.log2 + 1) / 8) - 1) / compactStep b * compactStep b := (Nat.div_mul_cancel hdvd).symm
        _ ≤ b / compactStep b * compactStep b := Nat.mul_le_mul_right _ (Nat.div_le_div_right hb)
    have hupper : a < 2 ^ (8 * ((b.log2 + 1) / 8) - 1) :=
      lt_of_lt_of_le (lt_two_pow_log2 a) (Nat.pow_le_pow_right (by decide) (by omega))
    exact le_trans (toTarget_fromTarget_le ha) (le_trans hupper.le hfloor)
  · have hstep : compactStep a = compactStep b := by
      unfold compactStep
      rw [show (a.log2 + 1) / 8 = (b.log2 + 1) / 8 by omega]
    rw [toTarget_fromTarget ha, toTarget_fromTarget h, hstep]
    exact Nat.mul_le_mul_right _ (Nat.div_le_div_right hab)

theorem compactStep_dvd {j : Nat} (hm : m < 2 ^ 16) : compactStep (m * 256 ^ j) ∣ m * 256 ^ j := by
  have hlt : m * 256 ^ j < 2 ^ (8 * j + 16) := by
    rw [Nat.pow_add, two_pow_eight_mul, Nat.mul_comm]
    exact Nat.mul_lt_mul_of_pos_left hm (Nat.pow_pos (by decide))
  have hlog := log2_lt_of_lt (by omega) hlt
  exact Dvd.dvd.mul_left (Nat.pow_dvd_pow 256 (by omega)) m

theorem beNat_toBytesBe (value : Nat) : beNat (toBytesBe value) = value := by
  have hlt : value < 256 ^ byteLength value := by
    rw [← two_pow_eight_mul]
    exact lt_of_lt_of_le (lt_two_pow_log2 value) (Nat.pow_le_pow_right (by decide) (by unfold byteLength; omega))
  rw [toBytesBe, beNat_reverse, leNat_leList, Nat.mod_eq_of_lt hlt]

theorem drop_leList (i w value : Nat) : (leList w value).drop i = leList (w - i) (value / 256 ^ i) := by
  induction i generalizing w value with
  | zero => simp
  | succ i ih =>
    cases w with
    | zero => simp [leList]
    | succ w => rw [leList, List.drop_succ_cons, ih, Nat.div_div_eq_div_mul, ← Nat.pow_succ', Nat.add_sub_add_right]

theorem beNat_take_toBytesBe (hk : 3 < byteLength value) :
    beNat ((toBytesBe value).take 3) = value >>> (8 * (byteLength value - 3)) := by
  have hm := (leadingBytes_long hk).lt
  rw [toBytesBe, List.take_reverse, beNat_reverse, leList_length, drop_leList, leNat_leList,
    show byteLength value - (byteLength value - 3) = 3 by omega, ← two_pow_eight_mul,
    ← Nat.shiftRight_eq_div_pow]
  exact Nat.mod_eq_of_lt hm

theorem testBit_signBit (h : m < 2 ^ 24) : m.testBit 23 = decide (2 ^ 23 ≤ m) := by
  rw [Nat.testBit_eq_decide_div_mod_eq]
  simp only [decide_eq_decide]
  omega

theorem targetToCompactBits_eq (value : Nat) : targetToCompactBits value = (Target.fromTarget value).bits := by
  unfold targetToCompactBits Target.fromTarget
  split
  next => rfl
  next h0 =>
    have hlen : (toBytesBe value).length = byteLength value := by simp [toBytesBe]
    dsimp only
    rw [hlen, beNat_toBytesBe]
    have hcarry : ∀ m, m < 2 ^ 24 →
        (if m.testBit 23 = true then UInt32.ofNat ((byteLength value + 1) * 2 ^ 24 + m / 256)
          else UInt32.ofNat (byteLength value * 2 ^ 24 + m)) =
        Target.bits (if 2 ^ 23 ≤ m % 2 ^ 24
          then ⟨UInt32.ofNat ((byteLength value + 1) * 2 ^ 24 + m % 2 ^ 24 / 256)⟩
          else ⟨UInt32.ofNat (byteLength value * 2 ^ 24 + m % 2 ^ 24)⟩) := by
      intro m hm
      rw [Nat.mod_eq_of_lt hm, testBit_signBit hm, apply_ite Target.bits]
      simp only [decide_eq_true_eq]
    split
    next hk => exact hcarry _ (leadingBytes_short h0 hk).lt
    next hk =>
      rw [beNat_take_toBytesBe (not_le.mp hk)]
      exact hcarry _ (leadingBytes_long (not_le.mp hk)).lt

/-- Compact form rounds down by less than one part in 2 ^ 15, keeps two leading bytes and the order, and the
encoders of the relays agree with the node's own. -/
theorem compact_rounding {v : Nat} (hv : v < 2 ^ 256) :
    (Target.fromTarget v).toTarget ≤ v ∧
    (v - (Target.fromTarget v).toTarget) * 2 ^ 15 ≤ v ∧
    (0 < v → (v - (Target.fromTarget v).toTarget) * 2 ^ 15 < v) ∧
    (∀ m j, m < 2 ^ 16 → v = m * 256 ^ j → (Target.fromTarget v).toTarget = v) ∧
    (∀ w, v ≤ w → w < 2 ^ 256 → (Target.fromTarget v).toTarget ≤ (Target.fromTarget w).toTarget) ∧
    targetToCompactBits v = (Target.fromTarget v).bits := by
  have hlimit := lt_compactLimit hv
  refine ⟨toTarget_fromTarget_le hlimit, ?_, toTarget_fromTarget_error hlimit, ?_, ?_,
    targetToCompactBits_eq v⟩
  · rcases Nat.eq_zero_or_pos v with h0 | h0
    · subst h0
      decide
    · exact (toTarget_fromTarget_error hlimit h0).le
  · intro m j hm heq
    exact toTarget_fromTarget_of_dvd hlimit (heq ▸ compactStep_dvd hm)
  · intro w hvw hw
    exact toTarget_fromTarget_mono hvw (lt_compactLimit hw)

theorem compact_rounding_example :
    0x1234567 < 2 ^ 256 ∧ (Target.fromTarget 0x1234567).toTarget = 0x1234500 ∧
      (0x1234567 - (Target.fromTarget 0x1234567).toTarget) * 2 ^ 15 < 0x1234567 :=
  ⟨by decide, by decide, (compact_rounding (v := 0x1234567) (by decide)).2.2.1 (by decide)⟩

theorem compact_error_zero :
    0 < 2 ^ 256 ∧ ¬ (0 - (Target.fromTarget 0).toTarget) * 2 ^ 15 < 0 := by decide

end IriumConsensus
