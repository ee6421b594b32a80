import IriumConsensus.BlockTree
import IriumConsensus.Nodes

namespace IriumConsensus

open ByteCodec Checks FinMaps Stateful Delivery

variable {C : Crypto} {E : NodeEnv} {A A' : Ambient} {params : ChainParams}

variable {better : List Block → List Block → Bool}

namespace ChainState

variable {s₀ s t u : ChainState} {b : Block} {x below cur : List Block} {T seen : List (List Block)}

/-- What a node knows after the blocks of some branches of a tree, each after the one below it. -/
structure Knows (C : Crypto) (E : NodeEnv) (A : Ambient) (params : ChainParams) (s₀ : ChainState)
    (T seen : List (List Block)) (cur : List Block) (s : ChainState) : Prop where
  subset : seen ⊆ T
  closed : Delivery.Closed seen
  onBranch : AtBranch C E A s₀ cur s
  index : HoldsIndex C E params seen s.records

/-- The fork choice of the node is the given one wherever it is asked. -/
def Chooses (C : Crypto) (E : NodeEnv) (A : Ambient) (params : ChainParams) (s₀ : ChainState) (T : List (List Block))
    (better : List Block → List Block → Bool) : Prop :=
  ∀ b below seen cur s, Knows C E A params s₀ T ((b :: below) :: seen) cur s → Current seen cur → Known seen below →
    below ≠ cur → forkChoice C E s (branchPlace C E params (b :: below)) = .ok (better (b :: below) cur)

def afterDeliveries (C : Crypto) (E : NodeEnv) (params : ChainParams) (fuel : Nat)
    (order : List (Ambient × List Block)) (s : ChainState) : ChainState :=
  order.foldl (fun s d => (processBlock C E d.1 fuel (tipOf params d.2) s).2) s

/-- The blocks of a tree are delivered, each of them once and after its parent, none before the time of `A`. -/
structure ParentFirst (A : Ambient) (T : List (List Block)) (order : List (Ambient × List Block)) : Prop where
  orders : Orders T (order.map Prod.snd)
  later : ∀ d ∈ order, A.Before d.1

def atOnce (A : Ambient) (order : List (List Block)) : List (Ambient × List Block) := order.map fun x => (A, x)

theorem map_snd_atOnce (A : Ambient) (order : List (List Block)) : (atOnce A order).map Prod.snd = order := by
  rw [atOnce, List.map_map]
  exact List.map_id _

theorem parentFirst_atOnce (A : Ambient) {order : List (List Block)} (ho : Orders T order) :
    ParentFirst A T (atOnce A order) := by
  refine ⟨(map_snd_atOnce A order).symm ▸ ho, fun d hd => ?_⟩
  obtain ⟨x, -, rfl⟩ := List.mem_map.mp hd
  exact ⟨le_rfl, rfl⟩

theorem Knows.reindex (hs : Knows C E A params s₀ T seen cur s) (index : BlockIndex)
    (anchors : Option (List AnchorHeader)) (orphaned : List Block)
    (hrec : records { s with toBlockIndex := index, anchors := anchors, reorgOrphanedBlocks := orphaned } = s.records) :
    Knows C E A params s₀ T seen cur
      { s with toBlockIndex := index, anchors := anchors, reorgOrphanedBlocks := orphaned } := by
  obtain ⟨t, hclimb, hsame⟩ := hs.onBranch
  exact ⟨hs.subset, hs.closed, ⟨t, hclimb, (SameCore.reindex _ _ _ _).trans hsame⟩, hrec ▸ hs.index⟩

section

variable (hnew : new C E A params = some s₀)

include hnew

theorem AtBranch.chain (h : AtBranch C E A s₀ x s) : s.chain = branchChain params x := by
  obtain ⟨t, hclimb, hsame⟩ := h
  exact hsame.chain.trans (hclimb.branch hnew).1

theorem AtBranch.height (h : AtBranch C E A s₀ x s) : s.height = x.length + 1 := by
  obtain ⟨t, hclimb, hsame⟩ := h
  rw [hsame.height, hclimb.height, new_height hnew, Nat.add_comm]

theorem AtBranch.totalWork (h : AtBranch C E A s₀ x s) : s.totalWork = branchWork params x := by
  obtain ⟨t, hclimb, hsame⟩ := h
  exact hsame.totalWork.trans (hclimb.branch hnew).2.1

theorem AtBranch.tipHash (h : AtBranch C E A s₀ x s) : tipHash C E s = branchHash C E params x := by
  obtain ⟨t, hclimb, hsame⟩ := h
  rw [← hclimb.tipHash hnew, ChainState.tipHash, ChainState.tipHash, hsame.chain, hsame.height]

theorem AtBranch.params_eq (h : AtBranch C E A s₀ x s) : s.params = params := by
  obtain ⟨t, hclimb, hsame⟩ := h
  exact hsame.params.trans (hclimb.branch hnew).2.2

variable (hT : ValidTree C E A params T) (hsw : Switchable C E A params T) {order : List (Ambient × List Block)}

include hT hsw

theorem Knows.indexed (hs : Knows C E A params s₀ T seen cur s) (hx : Known seen x) :
    Indexed C E s (branchChain params x) := by
  have hdrop : ∀ n, Known seen (x.drop n) := fun n => hs.closed.suffix hx (List.drop_suffix n x)
  have hhash : ∀ h (hh : h < (branchChain params x).length),
      (branchChain params x)[h].header.hashForHeight C E h = branchHash C E params (x.drop (x.length - h)) := by
    intro h hh
    have hlen : (x.drop (x.length - h)).length = h := by
      rw [branchChain_length] at hh
      rw [List.length_drop]
      omega
    rw [branchChain_getElem, branchHash, hlen]
  have hlink : ∀ h (hh : h < (branchChain params x).length - 1),
      (branchChain params x)[h + 1].header.prevHash = branchHash C E params (x.drop (x.length - h)) := by
    intro h hh
    rw [branchChain_length] at hh
    have hlt : x.length - (h + 1) < x.length := by omega
    have hcons := List.drop_eq_getElem_cons hlt
    rw [show x.length - (h + 1) + 1 = x.length - h by omega] at hcons
    have hknown := (hdrop (x.length - (h + 1))).mono hs.subset
    rw [hcons] at hknown
    obtain ⟨t, -, hclimb, -⟩ := hsw.climbs hT hnew hknown
    rw [branchChain_getElem, hcons]
    exact (hclimb.header hnew).1
  refine ⟨?_, ?_, ?_, ?_⟩
  · intro h hh
    have hblock : s.blockStore.lookup (branchHash C E params (x.drop (x.length - h))) = some _ :=
      hs.index.block _ (hdrop _)
    rw [blockByHash, hhash h hh, hblock, branchChain_getElem]
  · intro h hh
    rw [hhash h hh]
    refine (hs.index.height _ (hdrop _)).trans ?_
    rw [branchChain_length] at hh
    rw [List.length_drop, show x.length - (x.length - h) = h by omega]
  · intro h hh
    rw [hlink h hh, hhash h (by omega)]
  · intro h hh
    rw [hlink h hh]
    exact hT.named _ ((hdrop _).mono hs.subset)

theorem Knows.connect (hA : A.Before A') (hs : Knows C E A params s₀ T seen below s) (hx : b :: below ∈ seen) :
    ∃ s', connectBlock C E A' b s = (.ok (), s') ∧ Knows C E A params s₀ T seen (b :: below) s' := by
  obtain ⟨t, hclimb, hsame⟩ := hs.onBranch
  obtain ⟨t₂, -, hclimb₂, -⟩ := hsw.climbs hT hnew (.inr (hs.subset hx))
  cases hclimb₂ with
  | step hclimb₁ hb hc =>
    obtain rfl := hclimb.det hclimb₁
    obtain ⟨hfst, hsnd⟩ := hsame.connectBlock (C := C) (E := E) (A := A) b
    rw [hc] at hfst hsnd
    have hconnect : connectBlock C E A b s = (.ok (), (connectBlock C E A b s).2) := Prod.ext hfst rfl
    refine ⟨_, connectBlock_before hA hconnect, hs.subset, hs.closed, ⟨_, .step hclimb hb hc, hsnd⟩, ?_⟩
    have hheight := hs.onBranch.height hnew
    have hwindow := hT.stored _ (hs.subset hx)
    rw [List.length_cons, ← hheight] at hwindow
    rw [connectBlock_records hwindow hconnect, blockHash, hheight, hs.onBranch.totalWork hnew]
    have hadd := hs.index.addToIndex (x := b :: below) fun y hy hhash =>
      hT.distinct y _ (hy.mono hs.subset) (.inr (hs.subset hx)) hhash
    refine hadd.congr fun y => or_congr_right ?_
    rw [List.mem_cons, or_iff_right_of_imp (fun h => h ▸ hx)]

theorem Knows.connectBranch (hA : A.Before A') (old : List Block) {branch : List Block}
    (hs : Knows C E A params s₀ T seen below s) (hx : Known seen (branch.reverse ++ below)) (n : Nat) :
    ∃ s', connectBranch C E A' old branch n s = (.ok (), s') ∧
      Knows C E A params s₀ T seen (branch.reverse ++ below) s' := by
  induction branch generalizing below s n with
  | nil => exact ⟨s, rfl, hs⟩
  | cons b rest ih =>
    rw [List.reverse_cons, List.append_assoc, List.singleton_append] at hx ⊢
    have hmem := (hs.closed.suffix hx (List.suffix_append _ _)).mem
    obtain ⟨s', hc, hs'⟩ := hs.connect hnew hT hsw hA hmem
    obtain ⟨s'', hrest, hs''⟩ := ih hs' hx (n + 1)
    refine ⟨s'', ?_, hs''⟩
    rw [ChainState.connectBranch, bind_apply, attempt_apply, hc]
    exact hrest

theorem Knows.path (hs : Knows C E A params s₀ T seen cur s) (hcur : Known seen cur) (hx : Known seen x) :
    ∃ old base rest, cur = old ++ base ∧ x = rest.reverse ++ base ∧
      findReorgPath C E s (branchHash C E params x) = .ok (base.length, rest) ∧
      ∀ b ∈ rest.head?, ¬b :: base <:+ cur := by
  have hchain := hs.onBranch.chain hnew
  have hmain := hs.indexed hnew hT hsw hcur
  have hlen : (branchChain params x).length = x.length + 1 := branchChain_length x
  obtain ⟨a, rest, hpath, hbelow, hsplit, hparts⟩ := findReorgPath_indexed (by rwa [hchain])
    (hs.indexed hnew hT hsw hx) (by rw [hchain]; rfl) hlen
  rw [hchain, branchChain_length] at hbelow
  rw [hchain, branchChain_take (by omega)] at hsplit
  rw [branchChain_getElem, Nat.sub_self, List.drop_zero] at hpath
  have hbase : (cur.drop (cur.length - a)).length = a := by
    rw [List.length_drop]
    omega
  refine ⟨cur.take (cur.length - a), cur.drop (cur.length - a), rest, (List.take_append_drop _ _).symm, ?_, ?_, ?_⟩
  · rw [branchChain, branchChain, List.cons_append, List.cons_inj_right] at hsplit
    rw [← List.reverse_reverse x, hsplit, List.reverse_append, List.reverse_reverse]
  · rw [hbase]
    exact hpath
  · intro b hb hsuffix
    -- the block would stand on the main chain right above the shared branch
    refine hparts b hb ?_
    obtain ⟨above, habove⟩ := hsuffix
    have hone : above.length + 1 + a = cur.length := by
      have := congrArg List.length habove
      rw [List.length_append, List.length_cons, hbase] at this
      omega
    rw [hchain, List.getElem?_eq_getElem (by rw [branchChain_length]; omega), branchChain_getElem,
      show cur.length - (a + 1) = above.length by omega, ← habove, List.drop_left]
    rfl

theorem Knows.reorg (hA : A.Before A') (hs : Knows C E A params s₀ T seen cur s) (hcur : Known seen cur)
    (hx : Known seen x) (hover : ¬cur <:+ x) (hunder : ¬x <:+ cur) :
    ∃ s', reorgToTip C E A' (branchHash C E params x) s = (.ok (), s') ∧ Knows C E A params s₀ T seen x s' := by
  have hs₀ : Reachable C E s₀ := ⟨A, params, s₀, trivial, hnew, .refl⟩
  obtain ⟨old, base, rest, rfl, rfl, hpath, hparts⟩ := hs.path hnew hT hsw hcur hx
  have htip : s.tipHeight = old.length + base.length := by
    rw [tipHeight, hs.onBranch.height hnew, Nat.add_sub_cancel, List.length_append]
  have hold : old ≠ [] := by
    rintro rfl
    exact hover (List.suffix_append _ _)
  have hrest : rest ≠ [] := by
    rintro rfl
    exact hunder (List.suffix_append _ _)
  have hdepth : ¬s.tipHeight ≤ base.length := by
    have := List.length_pos_of_ne_nil hold
    omega
  obtain ⟨t, hclimb, hsame⟩ := hs.onBranch
  have hcheck : checkReorg E s base.length = .ok () := by
    obtain ⟨t', -, hclimb', hfinal⟩ := hsw.climbs hT hnew (hcur.mono hs.subset)
    obtain rfl := hclimb.det hclimb'
    obtain ⟨b, rest, rfl⟩ := List.exists_cons_of_ne_nil hrest
    have hb : b :: base ∈ seen := by
      rw [List.reverse_cons, List.append_assoc, List.singleton_append] at hx
      exact (hs.closed.suffix hx (List.suffix_append _ _)).mem
    have hmain : old ++ base ∈ seen := hcur.resolve_left (List.append_ne_nil_of_left_ne_nil hold base)
    have hshallow := hsw.shallow b base old (hs.subset hb) (hs.subset hmain) (hparts b rfl)
    simp only [checkReorg, bind_eq_ok, exists_unit, failIf_eq_ok, htip, hsame.finalizedHeight, hfinal,
      Nat.add_sub_cancel]
    rw [List.length_append] at hshallow
    exact ⟨fun h => absurd (hshallow h.1) (not_le.mpr h.2), Nat.not_lt_zero _⟩
  obtain ⟨m, hbase, habove⟩ := hclimb.split
  have hm : m.tipHeight = base.length := by
    rw [tipHeight, hbase.height, new_height hnew, Nat.add_sub_cancel_left]
  have hfuel : old.length ≤ s.chain.length := by
    rw [hs.onBranch.chain hnew, branchChain_length, List.length_append]
    omega
  obtain ⟨v, hdown, hv⟩ := habove.disconnectTo (hbase.reachable hs₀) hsame hfuel
  rw [hm] at hdown
  have hrecords := disconnectTo_records (C := C) (E := E) base.length s.chain.length s
  rw [hdown] at hrecords
  have hknows : Knows C E A params s₀ T seen base v := ⟨hs.subset, hs.closed, ⟨m, hbase, hv⟩, hrecords ▸ hs.index⟩
  obtain ⟨w, hup, hw⟩ := hknows.connectBranch hnew hT hsw hA old hx 0
  refine ⟨_, ?_, hw.reindex _ _ (w.reorgOrphanedBlocks ++ old.filter fun b => b.receipts ≠ []) rfl⟩
  rw [reorgToTip, read_bind, bind_apply, lift_apply, hpath]
  dsimp only
  rw [if_neg hdepth, bind_apply, lift_apply, hcheck]
  dsimp only
  rw [switchBranch, read_bind, bind_apply, hdown]
  dsimp only
  rw [bind_apply, hup]
  rfl

theorem Knows.placed (hs : Knows C E A params s₀ T seen cur s) (hx : b :: below ∈ T) (hbelow : Known seen below)
    (hfresh : b :: below ∉ seen) :
    place C E s b = branchPlace C E params (b :: below) ∧
      checkPlacement C E s b (branchPlace C E params (b :: below)) = .ok () ∧
      b.header.prevHash = branchHash C E params below ∧ b.header.prevHash ∈ s.blockStore := by
  obtain ⟨t, -, hclimb, -⟩ := hsw.climbs hT hnew (.inr hx)
  obtain ⟨hprev, hpow⟩ := hclimb.header hnew
  have hknown := hbelow.mono hs.subset
  have hheight : s.heights.lookup b.header.prevHash = some below.length := by
    rw [hprev]
    exact hs.index.height _ hbelow
  have hwork : s.cumulativeWork.lookup b.header.prevHash = some (branchWork params below) := by
    rw [hprev]
    exact hs.index.work _ hbelow
  have hparent : decide (b.header.prevHash ≠ ByteVec.zero 32) := by
    rw [hprev]
    exact decide_eq_true (hT.named _ hknown)
  refine ⟨?_, ?_, hprev, ?_⟩
  · simp only [place, hparent, if_true, hheight, hwork, Option.getD_some]
    rfl
  · simp only [checkPlacement, bind_eq_ok, exists_unit, failIf_eq_ok]
    refine ⟨?_, hpow s (hs.onBranch.params_eq hnew) _, ?_⟩
    · intro hmem
      obtain ⟨y, hy, hhash⟩ := hs.index.only _ hmem
      obtain rfl := hT.distinct y _ (hy.mono hs.subset) (.inr hx) hhash
      exact hfresh (hy.mem)
    · rw [show s.anchors = none from hs.index.anchors]
      exact Bool.false_ne_true
  · rw [hprev]
    exact Finmap.mem_of_lookup_eq_some (hs.index.block _ hbelow)

theorem Knows.adopt (hA : A.Before A') (hs : Knows C E A params s₀ T ((b :: below) :: seen) cur s)
    (hcur : Current seen cur) (hbelow : Known seen below) (hfresh : b :: below ∉ seen)
    (hchoice : below ≠ cur → forkChoice C E s (branchPlace C E params (b :: below)) = .ok (better (b :: below) cur)) :
    ∃ advanced s', adoptBlock C E A' b (branchPlace C E params (b :: below)) s = (.ok advanced, s') ∧
      Knows C E A params s₀ T ((b :: below) :: seen) (deliver better cur (b :: below)) s' := by
  obtain ⟨t, -, hclimb, -⟩ := hsw.climbs hT hnew (.inr (hs.subset List.mem_cons_self))
  have hprev := (hclimb.header hnew).1
  rw [adoptBlock, read_bind, hprev, hs.onBranch.tipHash hnew]
  by_cases heq : below = cur
  · subst heq
    obtain ⟨s', hc, hs'⟩ := hs.connect hnew hT hsw hA List.mem_cons_self
    refine ⟨true, s', ?_, ?_⟩
    · rw [if_pos rfl, bind_apply, hc]
      rfl
    · rwa [Delivery.deliver, List.tail_cons, if_pos rfl]
  · have hne : branchHash C E params below ≠ branchHash C E params cur := fun hhash =>
      heq (hT.distinct _ _ ((hbelow.cons _).mono hs.subset) ((hcur.known.cons _).mono hs.subset) hhash)
    rw [if_neg hne, bind_apply, lift_apply, hchoice heq, Delivery.deliver, List.tail_cons, if_neg heq]
    dsimp only
    cases better (b :: below) cur with
    | false => exact ⟨false, s, rfl, hs⟩
    | true =>
      have hover : ¬cur <:+ b :: below := by
        intro hsuffix
        rcases List.suffix_cons_iff.mp hsuffix with rfl | hsuffix
        · exact hfresh hcur.known.mem
        · exact heq (hcur.leaf.eq_of_suffix hcur.closed hbelow hsuffix).symm
      have hunder : ¬b :: below <:+ cur := fun hsuffix => hfresh (hcur.closed.suffix hcur.known hsuffix).mem
      obtain ⟨s', hre, hs'⟩ := hs.reorg hnew hT hsw hA (hcur.known.cons _) (.inr List.mem_cons_self) hover hunder
      refine ⟨true, s', ?_, hs'⟩
      rw [if_pos rfl, bind_apply, branchPlace, hre]
      rfl

theorem Knows.processBlock (hA : A.Before A') (hs : Knows C E A params s₀ T seen cur s) (hcur : Current seen cur)
    (hx : b :: below ∈ T) (hbelow : Known seen below) (hfresh : b :: below ∉ seen)
    (hchoice : ∀ s', Knows C E A params s₀ T ((b :: below) :: seen) cur s' → below ≠ cur →
      forkChoice C E s' (branchPlace C E params (b :: below)) = .ok (better (b :: below) cur)) (fuel : Nat) :
    Knows C E A params s₀ T ((b :: below) :: seen) (deliver better cur (b :: below))
      (processBlock C E A' (fuel + 2) b s).2 := by
  obtain ⟨hplace, hcheck, -, hstored⟩ := hs.placed hnew hT hsw hx hbelow hfresh
  have hadded : Knows C E A params s₀ T ((b :: below) :: seen) cur
      (addToIndex s b (branchPlace C E params (b :: below))) := by
    obtain ⟨t, hclimb, hsame⟩ := hs.onBranch
    refine ⟨List.cons_subset.mpr ⟨hx, hs.subset⟩, hs.closed.cons hbelow,
      ⟨t, hclimb, (SameCore.reindex _ _ _ _).trans hsame⟩, ?_⟩
    exact hs.index.addToIndex (x := b :: below) fun y hy hhash =>
      hT.distinct y _ (hy.mono hs.subset) (.inr hx) hhash
  obtain ⟨advanced, s', hadopt, hs'⟩ :=
    hadded.adopt hnew hT hsw hA hcur hbelow hfresh (hchoice _ hadded)
  have hindex : indexAndAdopt C E A' b (branchPlace C E params (b :: below)) s = (.ok advanced, s') := by
    rw [indexAndAdopt, update_bind, bind_apply, attempt_apply, hadopt]
    rfl
  have horphans : s'.orphanPool.lookup (tipHash C E s') = none := by
    rw [show s'.orphanPool = ∅ from hs'.index.orphans]
    exact Finmap.lookup_empty _
  have hwindow : blockStoreWindow E = 0 ∨ s'.tipHeight ≤ blockStoreWindow E := by
    rw [tipHeight, hs'.onBranch.height hnew, Nat.add_sub_cancel]
    rcases (hcur.deliver better hbelow hfresh).known with hnil | hmem
    · exact .inr (hnil ▸ Nat.zero_le _)
    · exact hT.stored _ (hs'.subset hmem)
  have hpruned : (pruneCaches C E s').records = s'.records := pruneCaches_records hwindow
  obtain ⟨index, hprune⟩ := pruneCaches_eq C E s'
  rw [hprune] at hpruned
  have hend := hs'.reindex index s'.anchors s'.reorgOrphanedBlocks hpruned
  have hnot : ¬(b.header.prevHash ≠ ByteVec.zero 32 ∧ b.header.prevHash ∉ s.blockStore) := fun h => h.2 hstored
  rw [ChainState.processBlock, read_bind, if_neg hnot, processKnown, read_bind, hplace, bind_apply, lift_apply, hcheck]
  dsimp only
  rw [bind_apply, hindex]
  dsimp only
  have hdrain : drainOrphans (ChainState.processBlock C E A' (fuel + 1)) (fuel + 1) (ChainState.tipHash C E s') s' =
      (.ok (), s') := by
    rw [drainOrphans, read_bind, horphans]
    rfl
  rw [read_bind, bind_apply, hdrain]
  dsimp only
  rw [update_bind, read_bind, bind_apply, lift_apply, hprune]
  split
  next hlast =>
    obtain ⟨-, rfl⟩ := Prod.mk.inj hlast
    exact hend
  next hlast =>
    obtain ⟨-, rfl⟩ := Prod.mk.inj hlast
    exact hend

theorem Knows.afterDeliveries (hchoice : Chooses C E A params s₀ T better) (hs : Knows C E A params s₀ T seen cur s)
    (hcur : Current seen cur) (ho : Arrives seen (order.map Prod.snd)) (hmem : ∀ d ∈ order, A.Before d.1 ∧ d.2 ∈ T)
    (fuel : Nat) :
    Knows C E A params s₀ T ((order.map Prod.snd).reverse ++ seen) (deliverAll better cur (order.map Prod.snd))
      (ChainState.afterDeliveries C E params (fuel + 2) order s) := by
  induction order generalizing seen cur s with
  | nil => exact hs
  | cons d order ih =>
    obtain ⟨A', x⟩ := d
    obtain ⟨⟨b, below, rfl, hbelow⟩, hfresh, ho⟩ := ho
    obtain ⟨hA, hx⟩ := hmem _ List.mem_cons_self
    have hstep := hs.processBlock hnew hT hsw hA hcur hx hbelow hfresh
      (fun s' hs' hne => hchoice b below seen cur s' hs' hcur hbelow hne) fuel
    rw [List.map_cons, List.reverse_cons, List.append_assoc]
    exact ih hstep (hcur.deliver better hbelow hfresh) ho fun d hd => hmem d (List.mem_cons_of_mem _ hd)

theorem knows_afterDeliveries (hchoice : Chooses C E A params s₀ T better) (ho : ParentFirst A T order) (fuel : Nat) :
    Knows C E A params s₀ T (order.map Prod.snd).reverse (deliverAll better [] (order.map Prod.snd))
      (ChainState.afterDeliveries C E params (fuel + 2) order s₀) := by
  have hstart : Knows C E A params s₀ T [] [] s₀ :=
    ⟨List.nil_subset T, Current.root.closed, ⟨s₀, .refl, .refl _⟩, new_holdsIndex hnew⟩
  have hend := hstart.afterDeliveries hnew hT hsw hchoice .root ho.orders.arrives
    (fun d hd => ⟨ho.later d hd, (ho.orders.all _).mp (List.mem_map_of_mem hd)⟩) fuel
  rwa [List.append_nil] at hend

end

section

variable (hnew : new C E A params = some s₀) (hT : ValidTree C E A params T) (hsw : Switchable C E A params T)

include hnew

theorem chooses_work (hvrf : ∀ x ∈ T, proposerVrfEnforced E x.length = false) :
    Chooses C E A params s₀ T fun x y => decide (branchWork params y < branchWork params x) := by
  intro b below seen cur s hs _ _ _
  have hoff : proposerVrfEnforced E (branchPlace C E params (b :: below)).height = false :=
    hvrf _ (hs.subset List.mem_cons_self)
  rw [forkChoice, hoff, if_neg Bool.false_ne_true, hs.onBranch.totalWork hnew]
  rfl

include hT hsw

/-- Blocks delivered after their parents lead to the branch of greatest work, whatever their order. -/
theorem work_choice_converges (hvrf : ∀ x ∈ T, proposerVrfEnforced E x.length = false)
    (huntied : ∀ x y, Known T x → Known T y → Leaf T x → Leaf T y → branchWork params x = branchWork params y → x = y)
    {order order' : List (Ambient × List Block)} (ho : ParentFirst A T order) (ho' : ParentFirst A T order')
    (fuel fuel' : Nat) :
    ∃ x, Known T x ∧ Leaf T x ∧ (∀ y, Known T y → branchWork params y ≤ branchWork params x) ∧
      (afterDeliveries C E params (fuel + 2) order s₀).chain = branchChain params x ∧
      (afterDeliveries C E params (fuel' + 2) order' s₀).chain = branchChain params x := by
  have hmono : ∀ b below, branchWork params below ≤ branchWork params (b :: below) := fun b below => Nat.le_add_right _ _
  obtain ⟨w, hw, hleaf, hmax⟩ := exists_winner_of_measure hmono huntied
  have hchoice := chooses_work hnew hvrf
  have hend := (knows_afterDeliveries hnew hT hsw hchoice ho fuel).onBranch
  have hend' := (knows_afterDeliveries hnew hT hsw hchoice ho' fuel').onBranch
  rw [hw.deliverAll_eq ho.orders] at hend
  rw [hw.deliverAll_eq ho'.orders] at hend'
  exact ⟨w, hw.known, hleaf, hmax, hend.chain hnew, hend'.chain hnew⟩

end

def besideFirst : Block :=
  devnetBlock lockedGenesisHash repeatedCoinbaseTxid.reverse 1767583931 6 [repeatedCoinbase]

/-- A block on top of the first one; its hash is below that of `besideFirst` for nonce 1, above it for nonce 0. -/
def childOfFirst (nonce : UInt32) : Block :=
  devnetBlock secondWithCoinbase.header.prevHash
    (beVec 32 0x7595fbd8bfd9fa39835eed8c35e51e07c07e992a4e0a28c7bb8ab79098abd2b0) 1767583932 nonce
    [coinbaseTx [2] [⟨5000000000, p2pkhScript (ByteVec.zero 20)⟩]]

def forkedTree (nonce : UInt32) : List (List Block) :=
  [[besideFirst], [firstWithCoinbase], [childOfFirst nonce, firstWithCoinbase]]

def forkedTreeRotated (nonce : UInt32) : List (List Block) := (forkedTree nonce).rotate 1

theorem forkedTree_valid : ValidTree shaCrypto devnetNode quietAmbient devnetParams (forkedTree 1) := by
  decide +kernel

theorem forkedTree_switchable : Switchable shaCrypto devnetNode quietAmbient devnetParams (forkedTree 1) := by
  have h : checkSwitchable shaCrypto devnetNode quietAmbient devnetParams (forkedTree 1) := by decide +kernel
  exact switchable_of_check h

theorem forkedTree_untied (x y : List Block) (hx : Known (forkedTree 1) x) (hy : Known (forkedTree 1) y)
    (hlx : Leaf (forkedTree 1) x) (hly : Leaf (forkedTree 1) y)
    (heq : branchWork devnetParams x = branchWork devnetParams y) : x = y := by
  have h : ∀ x ∈ [] :: forkedTree 1, ∀ y ∈ [] :: forkedTree 1, Leaf (forkedTree 1) x → Leaf (forkedTree 1) y →
      branchWork devnetParams x = branchWork devnetParams y → x = y := by decide
  exact h x (List.mem_cons.mpr hx) y (List.mem_cons.mpr hy) hlx hly heq

theorem forkedTree_converges :
    ∃ s₀ x, new shaCrypto devnetNode quietAmbient devnetParams = some s₀ ∧ Leaf (forkedTree 1) x ∧
      (afterDeliveries shaCrypto devnetNode devnetParams 2 (atOnce quietAmbient (forkedTree 1)) s₀).chain =
        branchChain devnetParams x ∧
      (afterDeliveries shaCrypto devnetNode devnetParams 2 (atOnce quietAmbient (forkedTreeRotated 1)) s₀).chain =
        branchChain devnetParams x := by
  have hnew : (new shaCrypto devnetNode quietAmbient devnetParams).isSome := by decide +kernel
  obtain ⟨s₀, hnew⟩ := Option.isSome_iff_exists.mp hnew
  have ho : Orders (forkedTree 1) (forkedTree 1) := by decide
  have ho' : Orders (forkedTree 1) (forkedTreeRotated 1) := by decide
  obtain ⟨x, -, hleaf, -, hend, hend'⟩ := work_choice_converges hnew forkedTree_valid forkedTree_switchable
    (fun _ _ => rfl) forkedTree_untied (parentFirst_atOnce quietAmbient ho) (parentFirst_atOnce quietAmbient ho') 0 0
  exact ⟨s₀, x, hnew, hleaf, hend, hend'⟩

/-- A block that arrives before its parent is forgotten if the parent then lands on a side chain. -/
theorem orphan_on_side_chain_is_lost :
    ValidTree shaCrypto devnetNode quietAmbient devnetParams (forkedTree 1) ∧
      Switchable shaCrypto devnetNode quietAmbient devnetParams (forkedTree 1) ∧
      (∀ height, proposerVrfEnforced devnetNode height = false) ∧
      (∀ x y, Known (forkedTree 1) x → Known (forkedTree 1) y → Leaf (forkedTree 1) x → Leaf (forkedTree 1) y →
        branchWork devnetParams x = branchWork devnetParams y → x = y) ∧
      ∃ s₀, new shaCrypto devnetNode quietAmbient devnetParams = some s₀ ∧
        (afterCalls shaCrypto devnetNode quietAmbient 4 [besideFirst, firstWithCoinbase, childOfFirst 1] s₀).chain =
          [lockedGenesis, firstWithCoinbase, childOfFirst 1] ∧
        (afterCalls shaCrypto devnetNode quietAmbient 4 [besideFirst, childOfFirst 1, firstWithCoinbase] s₀).chain =
          [lockedGenesis, besideFirst] := by
  refine ⟨forkedTree_valid, forkedTree_switchable, fun _ => rfl, forkedTree_untied, ?_⟩
  obtain ⟨s₀, hnew, hdec⟩ := exists_of_any (new shaCrypto devnetNode quietAmbient devnetParams)
    (fun s₀ => (afterCalls shaCrypto devnetNode quietAmbient 4 [besideFirst, firstWithCoinbase, childOfFirst 1] s₀).chain =
          [lockedGenesis, firstWithCoinbase, childOfFirst 1] ∧
        (afterCalls shaCrypto devnetNode quietAmbient 4 [besideFirst, childOfFirst 1, firstWithCoinbase] s₀).chain =
          [lockedGenesis, besideFirst]) (by decide +kernel)
  exact ⟨s₀, hnew, hdec⟩

end ChainState

end IriumConsensus
