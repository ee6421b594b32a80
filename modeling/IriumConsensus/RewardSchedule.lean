import IriumConsensus.Nodes

namespace IriumConsensus

variable (E : NodeEnv)

/-- The block at this height is the first one of a new subsidy. -/
def HalvesAt (height : Nat) : Prop := halvingCount E (height - 1) < halvingCount E height

instance (height : Nat) : Decidable (HalvesAt E height) := inferInstanceAs (Decidable (_ < _))

variable {E}

theorem halvingCount_le_fork {a : Nat} (h : ∀ F, resolvedBlockTimeV2ForkHeight E = some F → a ≤ F) :
    halvingCount E a = (a - 1) / 210000 := by
  unfold halvingCount
  split
  next h0 => subst h0; rfl
  next =>
    split
    next F hF => rw [if_neg (not_lt.mpr (h F hF))]; rfl
    next => rfl

theorem halvingCount_past_fork {a F : Nat} (hF : resolvedBlockTimeV2ForkHeight E = some F) (hpos : 1 ≤ F)
    (h : F < a) : halvingCount E a = (F - 1) / 210000 + (a - F - 1) / 1050000 := by
  unfold halvingCount
  rw [if_neg (by omega), hF]
  dsimp only
  rw [if_pos h, if_neg (by omega)]
  rfl

theorem halvingCount_succ (hfork : ∀ F, resolvedBlockTimeV2ForkHeight E = some F → 1 ≤ F) (a : Nat) :
    halvingCount E a ≤ halvingCount E (a + 1) ∧ halvingCount E (a + 1) ≤ halvingCount E a + 1 := by
  cases hF : resolvedBlockTimeV2ForkHeight E with
  | none =>
    rw [halvingCount_le_fork (a := a) (by simp [hF]), halvingCount_le_fork (a := a + 1) (by simp [hF])]
    omega
  | some F =>
    have hpos := hfork F hF
    have hbelow : ∀ a ≤ F, halvingCount E a = (a - 1) / 210000 := by
      intro a ha
      refine halvingCount_le_fork fun F' hF' => ?_
      obtain rfl := Option.some.inj (hF.symm.trans hF')
      exact ha
    rcases Nat.lt_trichotomy a F with h | h | h
    · rw [hbelow a (by omega), hbelow (a + 1) h]
      omega
    · rw [hbelow a (by omega), halvingCount_past_fork hF hpos (by omega), h]
      omega
    · rw [halvingCount_past_fork hF hpos h, halvingCount_past_fork hF hpos (by omega)]
      omega

theorem halvingCount_mono (hfork : ∀ F, resolvedBlockTimeV2ForkHeight E = some F → 1 ≤ F) :
    Monotone (halvingCount E) :=
  monotone_nat_of_le_succ fun a => (halvingCount_succ hfork a).1

theorem halvingCount_fork {F : Nat} (hF : resolvedBlockTimeV2ForkHeight E = some F) (hpos : 1 ≤ F) :
    halvingCount E (F + 1) = halvingCount E F := by
  have hbelow : halvingCount E F = (F - 1) / 210000 := halvingCount_le_fork fun F' hF' => by
    obtain rfl := Option.some.inj (hF.symm.trans hF')
    exact le_rfl
  rw [halvingCount_past_fork hF hpos (by omega), hbelow]
  omega

theorem halvesAt_iff {F h : Nat} (hF : resolvedBlockTimeV2ForkHeight E = some F) (hpos : 1 ≤ F) (hh : F < h) :
    HalvesAt E h ↔ F + 1 < h ∧ (h - F - 1) % 1050000 = 0 := by
  unfold HalvesAt
  rcases Nat.lt_or_ge (F + 1) h with hlt | hge
  · rw [halvingCount_past_fork hF hpos hh, halvingCount_past_fork hF hpos (by omega)]
    omega
  · obtain rfl : h = F + 1 := by omega
    rw [halvingCount_fork hF hpos]
    simp

theorem blockReward_shift {a b : Nat} (ha : 1 ≤ a) (hab : a ≤ b) (hcount : halvingCount E a ≤ halvingCount E b)
    (h64 : halvingCount E b < 64) :
    blockReward E b = blockReward E a >>> (halvingCount E b - halvingCount E a) := by
  unfold blockReward
  rw [if_neg (by omega), if_neg (by omega), if_neg (by omega), if_neg (by omega), ← Nat.shiftRight_add,
    Nat.add_sub_cancel' hcount]

theorem reward_schedule (hfork : ∀ F, resolvedBlockTimeV2ForkHeight E = some F → 1 ≤ F) :
    (∀ a b, 1 ≤ a → a ≤ b → halvingCount E a ≤ halvingCount E b ∧
      (halvingCount E b < 64 → blockReward E b = blockReward E a >>> (halvingCount E b - halvingCount E a))) ∧
    (∀ a, 1 ≤ a → halvingCount E (a + 1) ≤ halvingCount E a + 1) ∧
    ∀ F, resolvedBlockTimeV2ForkHeight E = some F →
      halvingCount E (F + 1) = halvingCount E F ∧
      HalvesAt E (F + 1050000 + 1) ∧ (∀ h, F < h → HalvesAt E h → F + 1050000 + 1 ≤ h) ∧
      ∀ h h', F < h → h < h' → HalvesAt E h → HalvesAt E h' → (∀ x, h < x → x < h' → ¬ HalvesAt E x) →
        h' = h + 1050000 := by
  refine ⟨fun a b ha hab => ?_, fun a _ => (halvingCount_succ hfork a).2, fun F hF => ?_⟩
  · have hcount := halvingCount_mono hfork hab
    exact ⟨hcount, blockReward_shift ha hab hcount⟩
  · have hpos := hfork F hF
    refine ⟨halvingCount_fork hF hpos, ?_, ?_, ?_⟩
    · rw [halvesAt_iff hF hpos (by omega)]
      omega
    · intro h hh hh'
      rw [halvesAt_iff hF hpos hh] at hh'
      omega
    · intro h h' hh hlt hat hat' hnone
      have hnext := hnone (h + 1050000) (by omega)
      rw [halvesAt_iff hF hpos (by omega)] at hat hat' hnext
      omega

theorem reward_schedule_mainnet :
    HalvesAt mainnetNode 1074251 ∧ blockReward mainnetNode 1074251 = blockReward mainnetNode 24250 >>> 1 := by
  have hfork : ∀ F, resolvedBlockTimeV2ForkHeight mainnetNode = some F → 1 ≤ F := by
    intro F hF
    obtain rfl := Option.some.inj hF
    decide
  obtain ⟨hcount, -, hfirst⟩ := reward_schedule hfork
  exact ⟨(hfirst 24250 rfl).2.1, (hcount 24250 1074251 (by decide) (by decide)).2 (by decide)⟩

end IriumConsensus
