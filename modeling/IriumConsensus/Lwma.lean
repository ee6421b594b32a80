import IriumConsensus.CompactTarget
import IriumConsensus.Connect
import IriumConsensus.Nodes

namespace IriumConsensus

open ChainState

variable {E : NodeEnv} {s : ChainState} {p : LwmaParams} {height : Nat} {front : List Block} {last : Block}

def Block.withTime (b : Block) (time : UInt32) : Block := { b with header := { b.header with time } }

def lwmaStep (p : LwmaParams) (cap previous next : Nat) : Nat :=
  min (min (max next (max (previous / max p.maxTargetDownFactor 1) 1)) (previous * max p.maxTargetUpFactor 1)) cap

theorem lwmaStep_le_cap (p : LwmaParams) (cap previous next : Nat) : lwmaStep p cap previous next ≤ cap :=
  min_le_right _ _

theorem lwmaStep_mono (p : LwmaParams) (cap previous : Nat) : Monotone (lwmaStep p cap previous) := fun _ _ h =>
  min_le_min_right _ (min_le_min_right _ (max_le_max_right _ h))

theorem lwmaStep_bounds {cap previous : Nat} (hup : 0 < p.maxTargetUpFactor) (hdown : 0 < p.maxTargetDownFactor)
    (hpos : 1 ≤ previous) (hcap : previous ≤ cap) (next : Nat) :
    max 1 (previous / p.maxTargetDownFactor) ≤ lwmaStep p cap previous next ∧
      lwmaStep p cap previous next ≤ p.maxTargetUpFactor * previous := by
  unfold lwmaStep
  rw [max_eq_left (show 1 ≤ p.maxTargetUpFactor from hup), max_eq_left (show 1 ≤ p.maxTargetDownFactor from hdown),
    max_comm 1]
  have hlow : max (previous / p.maxTargetDownFactor) 1 ≤ previous := max_le (Nat.div_le_self _ _) hpos
  have hhigh : previous ≤ previous * p.maxTargetUpFactor := Nat.le_mul_of_pos_right _ hup
  refine ⟨le_min (le_min (le_max_right _ _) (hlow.trans hhigh)) (hlow.trans hcap), ?_⟩
  rw [Nat.mul_comm]
  exact (min_le_left _ _).trans (min_le_right _ _)

def lwmaNext (E : NodeEnv) (height n : Nat) (sums : Nat × Nat) : Nat :=
  max (max (sums.2 / n) 1 * max sums.1 1 / (blockTargetInterval E height * (n * (n + 1) / 2))) 1

theorem lwmaNext_mono {n : Nat} {a b : Nat × Nat} (h₁ : a.1 ≤ b.1) (h₂ : a.2 = b.2) :
    lwmaNext E height n a ≤ lwmaNext E height n b := by
  unfold lwmaNext
  rw [h₂]
  exact max_le_max_right _ (Nat.div_le_div_right (Nat.mul_le_mul_left _ (max_le_max_right _ h₁)))

theorem lwmaTargetForHeightWith_eq (hfast : fastMining E = false) (hchain : s.chain = front ++ [last]) :
    lwmaTargetForHeightWith E s p height =
      if min p.window front.length = 0 then last.header.target
      else Target.fromTarget (lwmaStep p (min s.params.powLimit.toTarget p.maxTarget.toTarget)
        last.header.target.toTarget (lwmaNext E height (min p.window front.length)
          (lwmaSums p (p.maxSolvetimeAt E height) 1
            (front.drop (front.length - min p.window front.length) ++ [last])))) := by
  have hlast : s.chain.getLast? = some last := by rw [hchain, List.getLast?_concat]
  have hlen : s.chain.length - 1 = front.length := by rw [hchain]; simp
  have hdrop : s.chain.drop (s.chain.length - min p.window front.length - 1) =
      front.drop (front.length - min p.window front.length) ++ [last] := by
    rw [Nat.sub_right_comm, hlen, hchain, List.drop_append_of_le_length (Nat.sub_le _ _)]
  unfold lwmaTargetForHeightWith
  rw [if_neg (by simp [hfast]), hlast]
  dsimp only
  rw [hlen, hdrop]
  rfl

theorem lwmaSums_withTime (maxSolvetime : Nat) {time : UInt32} (h : last.header.time ≤ time) (xs : List Block)
    (weight : Nat) :
    (lwmaSums p maxSolvetime weight (xs ++ [last])).1 ≤
        (lwmaSums p maxSolvetime weight (xs ++ [last.withTime time])).1 ∧
      (lwmaSums p maxSolvetime weight (xs ++ [last])).2 =
        (lwmaSums p maxSolvetime weight (xs ++ [last.withTime time])).2 := by
  induction xs generalizing weight with
  | nil => exact ⟨le_rfl, rfl⟩
  | cons x xs ih =>
    cases xs with
    | nil =>
      refine ⟨?_, rfl⟩
      have htime : last.header.time.toNat - x.header.time.toNat ≤ time.toNat - x.header.time.toNat :=
        Nat.sub_le_sub_right (UInt32.le_iff_toNat_le.mp h) _
      exact Nat.add_le_add_right (Nat.mul_le_mul_left _ (min_le_min_right _ (max_le_max_right _ htime))) _
    | cons y ys =>
      obtain ⟨h₁, h₂⟩ := ih (weight + 1)
      exact ⟨Nat.add_le_add_left h₁ _, congrArg (y.header.target.toTarget + ·) h₂⟩

/-- One step of the difficulty stays within the factors and the cap, and a later last block never makes the
next one harder. -/
theorem lwma_bounds (hfast : fastMining E = false) (hchain : s.chain = front ++ [last])
    (hup : 0 < p.maxTargetUpFactor) (hdown : 0 < p.maxTargetDownFactor)
    (hlimit : min s.params.powLimit.toTarget p.maxTarget.toTarget < 2 ^ 2039) :
    (1 ≤ last.header.target.toTarget →
      last.header.target.toTarget ≤ min s.params.powLimit.toTarget p.maxTarget.toTarget →
      1 ≤ (lwmaTargetForHeightWith E s p height).toTarget ∧
      (lwmaTargetForHeightWith E s p height).toTarget ≤ min (min s.params.powLimit.toTarget p.maxTarget.toTarget)
        (p.maxTargetUpFactor * last.header.target.toTarget) ∧
      (Target.fromTarget (max 1 (last.header.target.toTarget / p.maxTargetDownFactor))).toTarget ≤
        (lwmaTargetForHeightWith E s p height).toTarget) ∧
    ∀ time, last.header.time ≤ time → (lwmaTargetForHeightWith E s p height).toTarget ≤
      (lwmaTargetForHeightWith E { s with chain := front ++ [last.withTime time] } p height).toTarget := by
  have hstep : ∀ previous next, lwmaStep p (min s.params.powLimit.toTarget p.maxTarget.toTarget) previous next <
      compactLimit := fun previous next => lt_of_le_of_lt (lwmaStep_le_cap _ _ _ _) hlimit
  rw [lwmaTargetForHeightWith_eq hfast hchain]
  refine ⟨fun hpos hcap => ?_, fun time htime => ?_⟩
  · have hlow : max 1 (last.header.target.toTarget / p.maxTargetDownFactor) ≤ last.header.target.toTarget :=
      max_le hpos (Nat.div_le_self _ _)
    split
    next =>
      -- an empty window keeps the target as it is
      refine ⟨hpos, le_min hcap (Nat.le_mul_of_pos_left _ hup), ?_⟩
      exact (toTarget_fromTarget_le (lt_of_le_of_lt (hlow.trans hcap) hlimit)).trans hlow
    next =>
      generalize lwmaNext E height _ _ = next
      obtain ⟨hmin, hmax⟩ := lwmaStep_bounds hup hdown hpos hcap next
      have hone : (Target.fromTarget 1).toTarget = 1 := by decide
      refine ⟨?_, ?_, toTarget_fromTarget_mono hmin (hstep _ _)⟩
      · exact hone.symm.le.trans (toTarget_fromTarget_mono ((le_max_left _ _).trans hmin) (hstep _ _))
      · exact (toTarget_fromTarget_le (hstep _ _)).trans (le_min (lwmaStep_le_cap _ _ _ _) hmax)
  · rw [@lwmaTargetForHeightWith_eq E { s with chain := front ++ [last.withTime time] } p height front
      (last.withTime time) hfast rfl]
    split
    next => exact le_rfl
    next =>
      obtain ⟨h₁, h₂⟩ := lwmaSums_withTime (p.maxSolvetimeAt E height) htime
        (front.drop (front.length - min p.window front.length)) 1
      exact toTarget_fromTarget_mono (lwmaStep_mono _ _ _ (lwmaNext_mono h₁ h₂)) (hstep _ _)

def twoBlocks (bits : UInt32) : ChainState :=
  let first : Block := { lockedGenesis with header := { lockedGenesis.header with bits, time := 0 } }
  { blank mainnetNode { devnetParams with powLimit := ⟨bits⟩ } with chain := [first, first.withTime 600] }

theorem lwma_bounds_twoBlocks :
    (lwmaTargetForHeightWith mainnetNode (twoBlocks 0x1d00ffff) (LwmaParams.new none ⟨0x1d00ffff⟩) 2).toTarget ≤
      min (Target.toTarget ⟨0x1d00ffff⟩) (2 * Target.toTarget ⟨0x1d00ffff⟩) :=
  ((@lwma_bounds mainnetNode (twoBlocks 0x1d00ffff) _ 2 ((twoBlocks 0x1d00ffff).chain.take 1) _ (by decide) rfl
    (by decide) (by decide) (by decide +kernel)).1 (by decide +kernel) (by decide +kernel)).2.1

/-- The exponent of the largest compact targets does not fit its byte once the sign bit is cleared. -/
theorem lwma_wide_limit :
    let p := LwmaParams.new none ⟨0xffffffff⟩
    let s := twoBlocks 0xffffffff
    fastMining mainnetNode = false ∧ 0 < p.maxTargetUpFactor ∧ 0 < p.maxTargetDownFactor ∧
      s.chain.getLast?.map (fun b => b.header.target.toTarget) =
        some (min s.params.powLimit.toTarget p.maxTarget.toTarget) ∧
      (lwmaTargetForHeightWith mainnetNode s p 2).toTarget = 0 := by
  decide +kernel

end IriumConsensus
