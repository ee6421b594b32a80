import IriumConsensus.Converge
import IriumConsensus.ForkChoice

namespace IriumConsensus

open ByteCodec Checks FinMaps Stateful Delivery TieBreak

variable {C : Crypto} {E : NodeEnv} {A : Ambient} {params : ChainParams}

namespace ChainState

variable {s₀ s : ChainState} {x cur : List Block} {T seen : List (List Block)}

def branchKey (C : Crypto) (E : NodeEnv) (params : ChainParams) (x : List Block) : List ProposerRank × Nat :=
  (chainRanks (branchChain params x), (branchHash C E params x).toNat)

/-- A branch has the better proposers where the two part, or agrees with the other and has the lower hash. -/
def outranks (C : Crypto) (E : NodeEnv) (params : ChainParams) (x y : List Block) : Bool :=
  decide (Beats (branchKey C E params x) (branchKey C E params y))

theorem tipHash_onChain (s : ChainState) (x : List Block) :
    tipHash C E (onChain s (branchChain params x)) = branchHash C E params x := by
  simp only [onChain, tipHash, branchChain_getLast, branchChain_length, Nat.add_sub_cancel]
  rfl

theorem Compares.better_eq {c : ChainState} (h : Compares C E c s) :
    proposerRankChainBetter C E s (tipHash C E c) = .ok (decide (Beats (tipKey C E c) (tipKey C E s))) := by
  obtain ⟨a, rest, hpath, -⟩ := h.findReorgPath_eq
  obtain ⟨better, hbetter⟩ : ∃ better, proposerRankChainBetter C E s (tipHash C E c) = .ok better := by
    rw [proposerRankChainBetter, hpath]
    exact ⟨_, rfl⟩
  have hiff := replaces_iff_beats h
  rw [Replaces, hbetter, Except.ok.injEq] at hiff
  rw [hbetter, Bool.eq_iff_iff.mpr (hiff.trans decide_eq_true_iff.symm)]

theorem outranks_total (hT : ValidTree C E A params T) {x y : List Block} (hx : Known T x) (hy : Known T y) (hxy : ¬x <:+ y)
    (h : outranks C E params x y = false) : outranks C E params y x := by
  have hne : (branchKey C E params x).2 ≠ (branchKey C E params y).2 := by
    intro heq
    rw [hT.distinct x y hx hy (ByteVec.toNat_injective heq)] at hxy
    exact hxy List.suffix_rfl
  exact decide_eq_true ((beats_or_beats hne).resolve_left (of_decide_eq_false h))

section

variable (hnew : new C E A params = some s₀) (hT : ValidTree C E A params T) (hsw : Switchable C E A params T)

include hnew hT hsw

theorem Knows.compares {c : ChainState} (hs : Knows C E A params s₀ T seen cur s) (hcur : Known seen cur)
    (hx : Known seen x) (hchain : c.chain = branchChain params x) (hheight : c.height = c.chain.length)
    (hactive : forkChoiceHardeningActive E cur.length) : Compares C E c s := by
  have hown := hs.onBranch.chain hnew
  refine ⟨hheight, ?_, ?_, ?_, ?_, ?_⟩
  · rw [hchain]
    exact List.cons_ne_nil _ _
  · rw [hown, hchain]
    rfl
  · rw [hown]
    exact hs.indexed hnew hT hsw hcur
  · rw [hchain]
    exact hs.indexed hnew hT hsw hx
  · rwa [tipHeight, hs.onBranch.height hnew, Nat.add_sub_cancel]

omit hT hsw in
theorem Knows.tipKey_eq (hs : Knows C E A params s₀ T seen cur s) : tipKey C E s = branchKey C E params cur := by
  rw [tipKey, hs.onBranch.chain hnew, hs.onBranch.tipHash hnew]
  rfl

theorem chooses_rank
    (hactive : ∀ x ∈ T, proposerVrfEnforced E x.length ∧ forkChoiceHardeningActive E x.length) :
    Chooses C E A params s₀ T (outranks C E params) := by
  intro b below seen cur s hs hcur hbelow hne
  have hx : b :: below ∈ T := hs.subset List.mem_cons_self
  have hknown : Known ((b :: below) :: seen) cur := hcur.known.cons _
  have hroot : cur ≠ [] := by
    rintro rfl
    exact hne (hcur.leaf.eq_of_suffix hcur.closed hbelow List.nil_suffix).symm
  have hcompares : Compares C E (onChain s (branchChain params (b :: below))) s :=
    hs.compares hnew hT hsw hknown (.inr List.mem_cons_self) rfl rfl
      (hactive _ (hs.subset (hknown.resolve_left hroot))).2
  have hbetter := hcompares.better_eq
  rw [hs.tipKey_eq hnew, tipKey, tipHash_onChain] at hbetter
  have hon : proposerVrfEnforced E (branchPlace C E params (b :: below)).height := (hactive _ hx).1
  rw [forkChoice, if_pos hon]
  exact hbetter

/-- Whatever the order, blocks delivered after their parents lead to one tip, exactly if a branch of the tree
outranks every branch it does not stand on. -/
theorem rank_choice_converges_iff
    (hactive : ∀ x ∈ T, proposerVrfEnforced E x.length ∧ forkChoiceHardeningActive E x.length)
    (fuel : Nat) :
    (∀ order order', ParentFirst A T order → ParentFirst A T order' →
        tipHash C E (afterDeliveries C E params (fuel + 2) order s₀) =
          tipHash C E (afterDeliveries C E params (fuel + 2) order' s₀)) ↔
      ∃ w, Winner (outranks C E params) T w := by
  have hchoice := chooses_rank hnew hT hsw hactive
  have htip : ∀ order, ParentFirst A T order → tipHash C E (afterDeliveries C E params (fuel + 2) order s₀) =
      branchHash C E params (deliverAll (outranks C E params) [] (order.map Prod.snd)) := fun order ho =>
    (knows_afterDeliveries hnew hT hsw hchoice ho fuel).onBranch.tipHash hnew
  rw [← converges_iff_winner hT.closed hT.above fun x y hx hy hxy _ => outranks_total hT hx hy hxy]
  constructor
  · intro h o o' ho ho'
    -- all deliveries at one time
    have hhash := h _ _ (parentFirst_atOnce A ho) (parentFirst_atOnce A ho')
    rw [htip _ (parentFirst_atOnce A ho), htip _ (parentFirst_atOnce A ho'), map_snd_atOnce, map_snd_atOnce] at hhash
    exact hT.distinct _ _ (ho.current _ hT.closed).known (ho'.current _ hT.closed).known hhash
  · intro h order order' ho ho'
    rw [htip order ho, htip order' ho', h _ _ ho.orders ho'.orders]

end

/-- The longer branch ends with the lowest hash and wins. -/
theorem low_child_wins :
    ∃ s₀, new shaCrypto rankNode quietAmbient rankParams = some s₀ ∧
      ∀ order order', ParentFirst quietAmbient (forkedTree 1) order → ParentFirst quietAmbient (forkedTree 1) order' →
        tipHash shaCrypto rankNode (afterDeliveries shaCrypto rankNode rankParams 2 order s₀) =
          tipHash shaCrypto rankNode (afterDeliveries shaCrypto rankNode rankParams 2 order' s₀) := by
  have hnew : (new shaCrypto rankNode quietAmbient rankParams).isSome := by decide +kernel
  obtain ⟨s₀, hnew⟩ := Option.isSome_iff_exists.mp hnew
  have hvalid : ValidTree shaCrypto rankNode quietAmbient rankParams (forkedTree 1) := by decide +kernel
  have hcheck : checkSwitchable shaCrypto rankNode quietAmbient rankParams (forkedTree 1) := by decide +kernel
  have hbeats : ∀ y ∈ [] :: forkedTree 1, y <:+ [childOfFirst 1, firstWithCoinbase] ∨
      ¬[childOfFirst 1, firstWithCoinbase] <:+ y ∧
        outranks shaCrypto rankNode rankParams [childOfFirst 1, firstWithCoinbase] y ∧
        outranks shaCrypto rankNode rankParams y [childOfFirst 1, firstWithCoinbase] = false := by
    decide +kernel
  refine ⟨s₀, hnew, (rank_choice_converges_iff hnew hvalid (switchable_of_check hcheck) (fun _ _ => ⟨rfl, rfl⟩) 0).mpr
    ⟨[childOfFirst 1, firstWithCoinbase], .inr ?_, fun y hy => hbeats y (List.mem_cons.mpr hy)⟩⟩
  simp [forkedTree]

/-- All blocks have the same rank. One branch goes on from the lower hash, but ends with a higher one: it is taken if
it arrives last, and left if the other branch does. -/
theorem high_child_diverges :
    ValidTree shaCrypto rankNode quietAmbient rankParams (forkedTree 0) ∧
      Switchable shaCrypto rankNode quietAmbient rankParams (forkedTree 0) ∧
      (∀ height, proposerVrfEnforced rankNode height ∧ forkChoiceHardeningActive rankNode height) ∧
      ParentFirst quietAmbient (forkedTree 0) (atOnce quietAmbient (forkedTree 0)) ∧
      ParentFirst quietAmbient (forkedTree 0) (atOnce quietAmbient (forkedTreeRotated 0)) ∧
      ∃ s₀, new shaCrypto rankNode quietAmbient rankParams = some s₀ ∧
        (afterDeliveries shaCrypto rankNode rankParams 2 (atOnce quietAmbient (forkedTree 0)) s₀).chain =
          [lockedGenesis, firstWithCoinbase, childOfFirst 0] ∧
        (afterDeliveries shaCrypto rankNode rankParams 2 (atOnce quietAmbient (forkedTreeRotated 0)) s₀).chain =
          [lockedGenesis, besideFirst] := by
  have hvalid : ValidTree shaCrypto rankNode quietAmbient rankParams (forkedTree 0) := by decide +kernel
  have hcheck : checkSwitchable shaCrypto rankNode quietAmbient rankParams (forkedTree 0) := by decide +kernel
  have ho : Orders (forkedTree 0) (forkedTree 0) := by decide
  have ho' : Orders (forkedTree 0) (forkedTreeRotated 0) := by decide
  refine ⟨hvalid, switchable_of_check hcheck, fun _ => ⟨rfl, rfl⟩, parentFirst_atOnce _ ho, parentFirst_atOnce _ ho', ?_⟩
  obtain ⟨s₀, hnew, hdec⟩ := exists_of_any (new shaCrypto rankNode quietAmbient rankParams)
    (fun s₀ => (afterDeliveries shaCrypto rankNode rankParams 2 (atOnce quietAmbient (forkedTree 0)) s₀).chain =
          [lockedGenesis, firstWithCoinbase, childOfFirst 0] ∧
        (afterDeliveries shaCrypto rankNode rankParams 2 (atOnce quietAmbient (forkedTreeRotated 0)) s₀).chain =
          [lockedGenesis, besideFirst]) (by decide +kernel)
  exact ⟨s₀, hnew, hdec⟩

end ChainState

end IriumConsensus
