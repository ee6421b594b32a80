import IriumConsensus.BranchPath
import IriumConsensus.Lib.Delivery
import IriumConsensus.Rollback

namespace IriumConsensus

open ByteCodec Checks FinMaps Stateful Delivery

variable {C : Crypto} {E : NodeEnv} {A : Ambient} {params : ChainParams}

/-- The last block of a branch above genesis, which is given with its newest block first. -/
def tipOf (params : ChainParams) : List Block → Block
  | [] => params.genesisBlock
  | b :: _ => b

def branchHash (C : Crypto) (E : NodeEnv) (params : ChainParams) (x : List Block) : Hash32 :=
  (tipOf params x).header.hashForHeight C E x.length

def branchWork (params : ChainParams) : List Block → Nat
  | [] => params.genesisBlock.work
  | b :: below => branchWork params below + b.work

def branchChain (params : ChainParams) (x : List Block) : List Block := params.genesisBlock :: x.reverse

theorem branchChain_length (x : List Block) : (branchChain params x).length = x.length + 1 := by
  rw [branchChain, List.length_cons, List.length_reverse]

theorem branchChain_getElem (x : List Block) {h : Nat} (hh : h < (branchChain params x).length) :
    (branchChain params x)[h] = tipOf params (x.drop (x.length - h)) := by
  cases h with
  | zero => simp [branchChain, tipOf]
  | succ h =>
    rw [branchChain_length] at hh
    have hlt : x.length - (h + 1) < x.length := by omega
    rw [List.drop_eq_getElem_cons hlt]
    simp only [branchChain, List.getElem_cons_succ, List.getElem_reverse, tipOf]
    congr 1
    omega

theorem branchChain_getLast (x : List Block) : (branchChain params x).getLast? = some (tipOf params x) := by
  cases x with
  | nil => rfl
  | cons b below => rw [branchChain, List.reverse_cons, ← List.cons_append, List.getLast?_concat, tipOf]

theorem branchChain_take {x : List Block} {a : Nat} (ha : a ≤ x.length) :
    (branchChain params x).take (a + 1) = branchChain params (x.drop (x.length - a)) := by
  rw [branchChain, List.take_succ_cons, branchChain, List.reverse_drop, show x.length - (x.length - a) = a by omega]

namespace ChainState

section

variable {s₀ : ChainState}

theorem new_chain (hnew : new C E A params = some s₀) :
    s₀.chain = [params.genesisBlock] ∧ s₀.totalWork = params.genesisBlock.work ∧ s₀.params = params ∧
      s₀.finalizedHeight = 0 := by
  obtain ⟨undo, L, -, rfl⟩ := new_eq_some hnew
  exact ⟨rfl, rfl, rfl, rfl⟩

end

variable {s₀ s t : ChainState} {b : Block} {x below : List Block}

theorem connectBlock_chain (hc : connectBlock C E A b s = (.ok (), t)) :
    t.chain = s.chain ++ [b] ∧ t.totalWork = s.totalWork + b.work ∧ t.params = s.params := by
  obtain ⟨-, undo, L, -, -, rfl⟩ := connectBlock_eq_ok.mp hc
  obtain ⟨hchain, -, hwork, hparams⟩ := acceptBlock_grows (C := C) (E := E) (s.setLedger L) b undo
  exact ⟨hchain, hwork, hparams⟩

theorem Climbs.det {t' : ChainState} (h : Climbs C E A s x t) (h' : Climbs C E A s x t') : t = t' := by
  induction h generalizing t' with
  | refl =>
    cases h'
    rfl
  | step h hb hc ih =>
    cases h' with
    | step h' hb' hc' =>
      rw [ih h', hc'] at hc
      exact (Prod.mk.inj hc).2.symm

section

variable (hnew : new C E A params = some s₀)

include hnew

theorem Climbs.branch (h : Climbs C E A s₀ x t) :
    t.chain = branchChain params x ∧ t.totalWork = branchWork params x ∧ t.params = params := by
  obtain ⟨hchain, hwork, hparams, -⟩ := new_chain hnew
  induction h with
  | refl => exact ⟨hchain, hwork, hparams⟩
  | step h hb hc ih =>
    obtain ⟨hchain', hwork', hparams'⟩ := connectBlock_chain hc
    refine ⟨?_, ?_, hparams'.trans ih.2.2⟩
    · rw [hchain', ih.1, branchChain, branchChain, List.reverse_cons, List.cons_append]
    · rw [hwork', ih.2.1, branchWork]

theorem Climbs.tipHash (h : Climbs C E A s₀ x t) : tipHash C E t = branchHash C E params x := by
  rw [ChainState.tipHash, (h.branch hnew).1, branchChain_getLast, h.height, new_height hnew, Nat.add_sub_cancel_left]
  rfl

theorem Climbs.header (h : Climbs C E A s₀ (b :: below) t) :
    b.header.prevHash = branchHash C E params below ∧
      ∀ s : ChainState, s.params = params → ∀ err, checkPow C E s b (below.length + 1) b.header.target err = .ok () := by
  cases h with
  | @step _ t' _ _ h hb hc =>
    obtain ⟨hchain, -, hparams⟩ := h.branch hnew
    have hheight : t'.height = below.length + 1 := by rw [h.height, new_height hnew, Nat.add_comm]
    have hv := (connectBlock_eq_ok.mp hc).1
    obtain ⟨_, hheader, -⟩ := bind_eq_ok.mp hv
    have hpow := validateBlockHeader_pow hheader
    simp only [validateBlockHeader, bind_eq_ok, exists_unit, failIf_eq_ok, checkParent, hchain,
      branchChain_getLast, hheight, Nat.add_sub_cancel, not_not] at hheader
    refine ⟨hheader.1, fun s hs err => ?_⟩
    rw [hheight] at hpow
    unfold checkPow usesAuxpow at hpow ⊢
    rw [hs, ← hparams]
    split
    next haux =>
      rw [if_pos haux] at hpow
      exact hpow
    next haux =>
      rw [if_neg haux, failIf_eq_ok] at hpow
      exact failIf_eq_ok.mpr hpow

end

structure ValidTree (C : Crypto) (E : NodeEnv) (A : Ambient) (params : ChainParams) (T : List (List Block)) :
    Prop where
  above : [] ∉ T
  closed : Delivery.Closed T
  valid : ∀ x ∈ T, (runOf C E A params x).isSome
  distinct : ∀ x y, Known T x → Known T y → branchHash C E params x = branchHash C E params y → x = y
  named : ∀ x, Known T x → branchHash C E params x ≠ ByteVec.zero 32
  stored : ∀ x ∈ T, blockStoreWindow E = 0 ∨ x.length ≤ blockStoreWindow E

/-- A node can leave every branch of the tree again: its blocks leave no trace, none of them is finalized, and
where the depth of a reorg is capped no fork is deeper. -/
structure Switchable (C : Crypto) (E : NodeEnv) (A : Ambient) (params : ChainParams) (T : List (List Block)) :
    Prop where
  noTrace : ∀ b below t, b :: below ∈ T → runOf C E A params below = some t → LeavesNoTrace C E t b
  unfinal : ∀ x t, x ∈ T → runOf C E A params x = some t → t.finalizedHeight = 0
  shallow : ∀ b base old, b :: base ∈ T → old ++ base ∈ T → ¬b :: base <:+ old ++ base →
    forkChoiceHardeningActive E (old ++ base).length → old.length ≤ maxReorgDepth E

instance (C : Crypto) (E : NodeEnv) (A : Ambient) (params : ChainParams) (T : List (List Block)) :
    Decidable (ValidTree C E A params T) :=
  decidable_of_iff
    ([] ∉ T ∧ (∀ x ∈ T, Known T x.tail) ∧ (∀ x ∈ T, (runOf C E A params x).isSome) ∧
      (∀ x ∈ [] :: T, ∀ y ∈ [] :: T, branchHash C E params x = branchHash C E params y → x = y) ∧
      (∀ x ∈ [] :: T, branchHash C E params x ≠ ByteVec.zero 32) ∧
      ∀ x ∈ T, blockStoreWindow E = 0 ∨ x.length ≤ blockStoreWindow E)
    ⟨fun ⟨habove, hclosed, hvalid, hdistinct, hnamed, hstored⟩ =>
        ⟨habove, fun b below hx => hclosed (b :: below) hx, hvalid,
          fun x y hx hy => hdistinct x (List.mem_cons.mpr hx) y (List.mem_cons.mpr hy),
          fun x hx => hnamed x (List.mem_cons.mpr hx), hstored⟩,
      fun h =>
        ⟨h.above, fun x hx => by
          cases x with
          | nil => exact .inl rfl
          | cons b below => exact h.closed b below hx,
          h.valid, fun x hx y hy => h.distinct x y (List.mem_cons.mp hx) (List.mem_cons.mp hy),
          fun x hx => h.named x (List.mem_cons.mp hx), h.stored⟩⟩

/-- A check that the branches of a tree can be left again, none of them being longer than the cap. -/
def checkSwitchable (C : Crypto) (E : NodeEnv) (A : Ambient) (params : ChainParams) (T : List (List Block)) : Bool :=
  T.all fun x => decide (x.length ≤ maxReorgDepth E) &&
    (runOf C E A params x).all (fun t => t.finalizedHeight = 0) &&
    x.head?.all fun b => (runOf C E A params x.tail).all fun t => checkNoTrace C E t b

section

variable {T : List (List Block)}

theorem switchable_of_check (h : checkSwitchable C E A params T) : Switchable C E A params T := by
  simp only [checkSwitchable, List.all_eq_true, Bool.and_eq_true, decide_eq_true_eq] at h
  refine ⟨fun b below t hx ht => ?_, fun x t hx ht => ?_, fun b base old _ hold _ _ => ?_⟩
  · have htrace := (h _ hx).2
    simp only [List.head?_cons, Option.all_some, List.tail_cons, ht] at htrace
    exact leavesNoTrace_of_check htrace
  · have hfinal := (h x hx).1.2
    rw [ht, Option.all_some] at hfinal
    exact of_decide_eq_true hfinal
  · have hlen := (h _ hold).1.1
    rw [List.length_append] at hlen
    omega

theorem Switchable.climbs (hT : ValidTree C E A params T) (hsw : Switchable C E A params T)
    (hnew : new C E A params = some s₀) (hx : Known T x) :
    ∃ t, runOf C E A params x = some t ∧ Climbs C E A s₀ x t ∧ t.finalizedHeight = 0 := by
  induction x with
  | nil => exact ⟨s₀, hnew, .refl, (new_chain hnew).2.2.2⟩
  | cons b below ih =>
    have hmem := hx.resolve_left (List.cons_ne_nil b below)
    obtain ⟨t, hrun, hclimb, -⟩ := ih (hT.closed b below hmem)
    obtain ⟨t', hrun'⟩ := Option.isSome_iff_exists.mp (hT.valid _ hmem)
    refine ⟨t', hrun', ?_, hsw.unfinal _ t' hmem hrun'⟩
    rw [runOf, hrun] at hrun'
    split at hrun'
    next u hc =>
      cases hrun'
      exact .step hclimb (hsw.noTrace b below t hmem hrun) (Option.some.inj hc)
    next => cases hrun'

end

def AtBranch (C : Crypto) (E : NodeEnv) (A : Ambient) (s₀ : ChainState) (x : List Block) (s : ChainState) : Prop :=
  ∃ t, Climbs C E A s₀ x t ∧ SameCore s t

/-- The records that fork choice and reorgs go by. -/
structure Records where
  blockStore : FinMap Hash32 Block
  heights : FinMap Hash32 Nat
  cumulativeWork : FinMap Hash32 Nat
  orphanPool : FinMap Hash32 (List Block)
  anchors : Option (List AnchorHeader)

def records (s : ChainState) : Records := ⟨s.blockStore, s.heights, s.cumulativeWork, s.orphanPool, s.anchors⟩

def branchPlace (C : Crypto) (E : NodeEnv) (params : ChainParams) (x : List Block) : Placement :=
  ⟨x.length, branchHash C E params x, x.length, branchWork params x⟩

/-- The records are those of the known branches, and of no other block. -/
structure HoldsIndex (C : Crypto) (E : NodeEnv) (params : ChainParams) (seen : List (List Block)) (r : Records) :
    Prop where
  block : ∀ x, Known seen x → r.blockStore.lookup (branchHash C E params x) = some (tipOf params x)
  height : ∀ x, Known seen x → r.heights.lookup (branchHash C E params x) = some x.length
  work : ∀ x, Known seen x → r.cumulativeWork.lookup (branchHash C E params x) = some (branchWork params x)
  only : ∀ hash, hash ∈ r.blockStore → ∃ x, Known seen x ∧ branchHash C E params x = hash
  orphans : r.orphanPool = ∅
  anchors : r.anchors = none

section

variable {seen : List (List Block)} {r : Records}

theorem new_holdsIndex (hnew : new C E A params = some s₀) : HoldsIndex C E params [] s₀.records := by
  have hroot : ∀ x : List Block, Known [] x → x = [] := fun x hx => hx.resolve_right List.not_mem_nil
  obtain ⟨undo, L, -, rfl⟩ := new_eq_some hnew
  refine ⟨?_, ?_, ?_, ?_, rfl, rfl⟩
  · intro x hx
    obtain rfl := hroot x hx
    exact Finmap.lookup_insert _
  · intro x hx
    obtain rfl := hroot x hx
    exact Finmap.lookup_insert _
  · intro x hx
    obtain rfl := hroot x hx
    exact Finmap.lookup_insert _
  · intro hash hmem
    refine ⟨[], .inl rfl, ?_⟩
    rcases Finmap.mem_insert.mp hmem with rfl | hmem
    · rfl
    · exact absurd hmem Finmap.notMem_empty

theorem HoldsIndex.congr {seen' : List (List Block)} (h : HoldsIndex C E params seen r)
    (hmem : ∀ x, Known seen x ↔ Known seen' x) : HoldsIndex C E params seen' r where
  block x hx := h.block x ((hmem x).mpr hx)
  height x hx := h.height x ((hmem x).mpr hx)
  work x hx := h.work x ((hmem x).mpr hx)
  only hash hh := by
    obtain ⟨x, hx, hhash⟩ := h.only hash hh
    exact ⟨x, (hmem x).mp hx, hhash⟩
  orphans := h.orphans
  anchors := h.anchors

theorem HoldsIndex.addToIndex (h : HoldsIndex C E params seen s.records)
    (hdistinct : ∀ y, Known seen y → branchHash C E params y = branchHash C E params x → y = x) :
    HoldsIndex C E params (x :: seen) (addToIndex s (tipOf params x) (branchPlace C E params x)).records := by
  have hcases : ∀ y, Known (x :: seen) y → y = x ∨ Known seen y ∧ branchHash C E params y ≠ branchHash C E params x := by
    intro y hy
    by_cases heq : y = x
    · exact .inl heq
    · have hknown : Known seen y := hy.imp_right fun hmem => (List.mem_cons.mp hmem).resolve_left heq
      exact .inr ⟨hknown, fun hhash => heq (hdistinct y hknown hhash)⟩
  refine ⟨?_, ?_, ?_, ?_, h.orphans, h.anchors⟩
  · intro y hy
    rcases hcases y hy with rfl | ⟨hknown, hne⟩
    · exact Finmap.lookup_insert _
    · exact (Finmap.lookup_insert_of_ne _ hne).trans (h.block y hknown)
  · intro y hy
    rcases hcases y hy with rfl | ⟨hknown, hne⟩
    · exact Finmap.lookup_insert _
    · exact (Finmap.lookup_insert_of_ne _ hne).trans (h.height y hknown)
  · intro y hy
    rcases hcases y hy with rfl | ⟨hknown, hne⟩
    · exact Finmap.lookup_insert _
    · exact (Finmap.lookup_insert_of_ne _ hne).trans (h.work y hknown)
  · intro hash hmem
    rcases Finmap.mem_insert.mp hmem with rfl | hmem
    · exact ⟨x, .inr List.mem_cons_self, rfl⟩
    · obtain ⟨y, hy, hhash⟩ := h.only hash hmem
      exact ⟨y, hy.imp_right (List.mem_cons_of_mem x), hhash⟩

theorem pruneCaches_records (h : blockStoreWindow E = 0 ∨ s.tipHeight ≤ blockStoreWindow E) :
    (pruneCaches C E s).records = s.records := by
  have htip : (pruneHeaderCache E s).tipHeight = s.tipHeight ∧ (pruneHeaderCache E s).records = s.records := by
    unfold pruneHeaderCache
    split_ifs <;> exact ⟨rfl, rfl⟩
  rw [pruneCaches, pruneBlockStore, htip.1, if_pos h, htip.2]

theorem connectBlock_records (hwindow : blockStoreWindow E = 0 ∨ s.height ≤ blockStoreWindow E)
    (hc : connectBlock C E A b s = (.ok (), t)) :
    t.records =
      (addToIndex s b ⟨s.height, blockHash C E s b, s.height, s.totalWork + b.work⟩).records := by
  obtain ⟨-, undo, L, -, -, rfl⟩ := connectBlock_eq_ok.mp hc
  obtain ⟨mode, signal, hmode⟩ := updateAdaptiveMode_eq (E := E) (pushBlock C E (s.setLedger L) b undo) s.height
  obtain ⟨finalized, hfinal, -⟩ := advanceFinality_eq (E := E)
    { pushBlock C E (s.setLedger L) b undo with adaptiveMode := mode, reorgSignal := signal } s.height
  rw [acceptBlock, show (s.setLedger L).height = s.height from rfl, hmode, hfinal]
  exact pruneCaches_records hwindow

theorem disconnectTipBlock_records (s : ChainState) : (disconnectTipBlock C E s).2.records = s.records := by
  rcases hd : disconnectTipBlock C E s with ⟨e | tip, s'⟩
  · rw [disconnectTipBlock_error hd]
  · obtain ⟨undo, -, rfl⟩ := disconnectTipBlock_eq_ok.mp hd
    rfl

theorem disconnectTo_records (height fuel : Nat) (s : ChainState) :
    (disconnectTo C E height fuel s).2.records = s.records := by
  induction fuel generalizing s with
  | zero => rfl
  | succ fuel ih =>
    rw [disconnectTo, read_bind]
    split_ifs
    · rfl
    · have hone := disconnectTipBlock_records (C := C) (E := E) s
      rcases hd : disconnectTipBlock C E s with ⟨e | tip, s'⟩
      · rw [hd] at hone
        rw [bind_apply, hd]
        exact hone
      · rw [hd] at hone
        have hrest := ih s'
        rw [bind_apply, hd]
        dsimp only
        rcases hr : disconnectTo C E height fuel s' with ⟨e | rest, s''⟩
        all_goals
          rw [hr] at hrest
          rw [bind_apply, hr]
          exact hrest.trans hone

end

end ChainState

end IriumConsensus
