import IriumConsensus.Calls
import IriumConsensus.Nodes
import IriumConsensus.WellFormed

namespace IriumConsensus

open ByteCodec Checks FinMaps Stateful Relation

namespace ChainState

section

variable (C : Crypto) (E : NodeEnv)

/-- The maps place a block at height `h + 1`, right above its parent, with its own work added. -/
structure Recorded (H W : FinMap Hash32 Nat) (h : Nat) (b : Block) : Prop where
  height : H.lookup (b.header.hashForHeight C E (h + 1)) = some (h + 1)
  parent : H.lookup b.header.prevHash = some h
  work : ∃ w, W.lookup b.header.prevHash = some w ∧
    W.lookup (b.header.hashForHeight C E (h + 1)) = some (w + b.work)

def Entry (genesis : Block) (H W : FinMap Hash32 Nat) (hash : Hash32) (b : Block) : Prop :=
  hash = genesis.header.hashForHeight C E 0 ∧ b = genesis ∨
    ∃ h, hash = b.header.hashForHeight C E (h + 1) ∧ Recorded C E H W h b

/-- A chain of recorded blocks above genesis, and the work of it. -/
inductive OnTop (genesis : Block) (H W : FinMap Hash32 Nat) : List Block → Nat → Prop
  | genesis (hheight : H.lookup (genesis.header.hashForHeight C E 0) = some 0)
      (hwork : W.lookup (genesis.header.hashForHeight C E 0) = some genesis.work) :
      OnTop genesis H W [genesis] genesis.work
  | extend {chain : List Block} {work : Nat} {tip b : Block} (hchain : OnTop genesis H W chain work)
      (hlast : chain.getLast? = some tip) (hprev : b.header.prevHash = tip.header.hashForHeight C E (chain.length - 1))
      (hb : Recorded C E H W (chain.length - 1) b) :
      OnTop genesis H W (chain ++ [b]) (work + b.work)

end

variable {C : Crypto} {E : NodeEnv} {A : Ambient} {genesis b : Block} {H H' W W' : FinMap Hash32 Nat}
  {chain : List Block} {work h : Nat} {hash : Hash32} {s s' : ChainState}

theorem Recorded.mono (hb : Recorded C E H W h b) (hh : Submap H H') (hw : Submap W W') :
    Recorded C E H' W' h b := by
  obtain ⟨w, hparent, hown⟩ := hb.work
  exact ⟨hh _ _ hb.height, hh _ _ hb.parent, w, hw _ _ hparent, hw _ _ hown⟩

theorem Entry.mono (he : Entry C E genesis H W hash b) (hh : Submap H H')
    (hw : Submap W W') : Entry C E genesis H' W' hash b := by
  rcases he with he | ⟨h, hhash, hb⟩
  · exact .inl he
  · exact .inr ⟨h, hhash, hb.mono hh hw⟩

theorem OnTop.mono (hc : OnTop C E genesis H W chain work) (hh : Submap H H')
    (hw : Submap W W') : OnTop C E genesis H' W' chain work := by
  induction hc with
  | genesis hheight hwork => exact .genesis (hh _ _ hheight) (hw _ _ hwork)
  | extend _ hlast hprev hb ih => exact .extend ih hlast hprev (hb.mono hh hw)

theorem OnTop.tip (hc : OnTop C E genesis H W chain work) :
    ∃ tip, chain.getLast? = some tip ∧
      H.lookup (tip.header.hashForHeight C E (chain.length - 1)) = some (chain.length - 1) ∧
      W.lookup (tip.header.hashForHeight C E (chain.length - 1)) = some work := by
  induction hc with
  | genesis hheight hwork => exact ⟨genesis, rfl, hheight, hwork⟩
  | @extend chain work tip b hchain hlast hprev hb ih =>
    obtain ⟨tip', hlast', -, hwork⟩ := ih
    obtain rfl := Option.some.inj (hlast.symm.trans hlast')
    have hlen : (chain ++ [b]).length - 1 = chain.length - 1 + 1 := by
      have hpos := List.length_pos_of_ne_nil (List.ne_nil_of_mem (List.mem_of_getLast? hlast))
      rw [List.length_append, List.length_singleton]
      omega
    obtain ⟨w, hparent, hown⟩ := hb.work
    rw [hprev, hwork] at hparent
    obtain rfl := Option.some.inj hparent
    rw [hlen]
    exact ⟨b, List.getLast?_concat, hb.height, hown⟩

theorem OnTop.getElem? (hc : OnTop C E genesis H W chain work) {i : Nat} (hi : chain[i]? = some b) :
    (i = 0 ∧ b = genesis ∧ H.lookup (b.header.hashForHeight C E 0) = some 0) ∨
      ∃ h, i = h + 1 ∧ Recorded C E H W h b := by
  induction hc with
  | genesis hheight hwork =>
    rw [List.getElem?_singleton] at hi
    split at hi
    next h0 => cases hi; exact .inl ⟨h0, rfl, hheight⟩
    next => cases hi
  | @extend chain work tip c hchain hlast hprev hc ih =>
    rcases lt_trichotomy i chain.length with hlt | heq | hgt
    · rw [List.getElem?_append_left hlt] at hi
      exact ih hi
    · have hpos := List.length_pos_of_ne_nil (List.ne_nil_of_mem (List.mem_of_getLast? hlast))
      rw [heq, List.getElem?_concat_length] at hi
      cases hi
      exact .inr ⟨chain.length - 1, by omega, hc⟩
    · rw [List.getElem?_eq_none (by simp; omega)] at hi
      cases hi

theorem OnTop.head (hc : OnTop C E genesis H W chain work) :
    chain[0]? = some genesis ∧ H.lookup (genesis.header.hashForHeight C E 0) = some 0 ∧
      W.lookup (genesis.header.hashForHeight C E 0) = some genesis.work := by
  induction hc with
  | genesis hheight hwork => exact ⟨rfl, hheight, hwork⟩
  | @extend chain work tip b hchain hlast hprev hb ih =>
    have hpos := List.length_pos_of_ne_nil (List.ne_nil_of_mem (List.mem_of_getLast? hlast))
    rw [List.getElem?_append_left hpos]
    exact ih

theorem OnTop.pop {tip : Block} (hc : OnTop C E genesis H W chain work) (hlast : chain.getLast? = some tip)
    (hlen : 1 < chain.length) : OnTop C E genesis H W chain.dropLast (work - tip.work) ∧
      ∃ h, Recorded C E H W h tip := by
  cases hc with
  | genesis => simp at hlen
  | @extend chain work tip' b hchain _ _ hb =>
    rw [List.getLast?_concat] at hlast
    cases hlast
    rw [List.dropLast_concat, Nat.add_sub_cancel]
    exact ⟨hchain, _, hb⟩

structure Closed (C : Crypto) (E : NodeEnv) (genesis : Block) (H W : FinMap Hash32 Nat) : Prop where
  known : ∀ hash h, H.lookup hash = some h → hash = genesis.header.hashForHeight C E 0 ∧ h = 0 ∨
    ∃ b h', h = h' + 1 ∧ hash = b.header.hashForHeight C E (h' + 1) ∧ Recorded C E H W h' b
  worked : ∀ hash ∈ W, hash ∈ H

structure Holding (C : Crypto) (E : NodeEnv) (genesis : Block) (H W H' W' : FinMap Hash32 Nat)
    (added : Option (Hash32 × Block)) (s : ChainState) : Prop where
  heights : s.heights = H'
  works : s.cumulativeWork = W'
  height : s.height = s.chain.length
  bestTip : s.bestTip = tipHash C E s
  chain : OnTop C E genesis H W s.chain s.totalWork
  store : ∀ hash b, s.blockStore.lookup hash = some b → (hash, b) ∈ added ∨ Entry C E genesis H W hash b
  kept : blockStoreWindow E = 0 → ∀ hash ∈ H', hash ∈ s.blockStore

variable {added : Option (Hash32 × Block)} {u : Unit} {w : Nat} {p : Placement} {params : ChainParams}

theorem pruneHeaderCache_eq (s : ChainState) :
    ∃ headers headerChain, pruneHeaderCache E s = { s with headers := headers, headerChain := headerChain } ∧
      Submap headers s.headers := by
  unfold pruneHeaderCache
  split_ifs
  · exact ⟨_, _, rfl, .refl _⟩
  · exact ⟨_, _, rfl, submap_retain _ _⟩

theorem pruneCaches_index (s : ChainState) :
    ∃ headers headerChain store, pruneCaches C E s =
        { s with headers := headers, headerChain := headerChain, blockStore := store } ∧
      Submap headers s.headers ∧ Submap store s.blockStore ∧ (blockStoreWindow E = 0 → store = s.blockStore) := by
  obtain ⟨headers, headerChain, hheaders, hsub⟩ := pruneHeaderCache_eq (E := E) s
  rw [pruneCaches, hheaders, pruneBlockStore]
  split_ifs with h
  · exact ⟨headers, headerChain, s.blockStore, rfl, hsub, .refl _, fun _ => rfl⟩
  · exact ⟨headers, headerChain, _, rfl, hsub, submap_retain _ _, fun h0 => absurd (.inl h0) h⟩

theorem Holding.prune (hs : Holding C E genesis H W H' W' added s) :
    Holding C E genesis H W H' W' added (pruneCaches C E s) := by
  obtain ⟨headers, headerChain, store, heq, -, hsub, hkept⟩ := pruneCaches_index (C := C) (E := E) s
  rw [heq]
  refine ⟨hs.heights, hs.works, hs.height, hs.bestTip, hs.chain, fun hash b hb => hs.store hash b (hsub hash b hb), ?_⟩
  intro h0
  rw [hkept h0]
  exact hs.kept h0

theorem Holding.tip (hs : Holding C E genesis H W H' W' added s) :
    H.lookup (tipHash C E s) = some (s.chain.length - 1) ∧ W.lookup (tipHash C E s) = some s.totalWork := by
  obtain ⟨tip, hlast, hheight, hwork⟩ := hs.chain.tip
  rw [tipHash, hlast, hs.height]
  exact ⟨hheight, hwork⟩

theorem Holding.pos (hs : Holding C E genesis H W H' W' added s) : 0 < s.chain.length := by
  obtain ⟨tip, hlast, -⟩ := hs.chain.tip
  exact List.length_pos_of_ne_nil (List.ne_nil_of_mem (List.mem_of_getLast? hlast))

theorem Holding.push (hs : Holding C E genesis H W H' W' added s) (undo : BlockUndo) (hh : Submap H H')
    (hw : Submap W W') (hb : Recorded C E H W h b) (hprev : b.header.prevHash = tipHash C E s) :
    Holding C E genesis H W H' W' added (pushBlock C E s b undo) := by
  obtain ⟨hheight, hwork⟩ := hs.tip
  have hpos := hs.pos
  obtain rfl : s.chain.length - 1 = h := by
    rw [← hprev, hb.parent] at hheight
    exact (Option.some.inj hheight).symm
  have hlen : s.chain.length - 1 + 1 = s.height := by
    rw [hs.height]
    omega
  have hown := hb.height
  obtain ⟨w, hparent, hbwork⟩ := hb.work
  rw [hprev, hwork] at hparent
  obtain rfl := Option.some.inj hparent
  rw [hlen] at hown hbwork
  have hheights : s.heights.insert (blockHash C E s b) s.height = H' := by
    rw [hs.heights]
    exact insert_of_lookup (hh _ _ hown)
  have hworks : s.cumulativeWork.insert (blockHash C E s b) (s.totalWork + b.work) = W' := by
    rw [hs.works]
    exact insert_of_lookup (hw _ _ hbwork)
  refine ⟨hheights, hworks, by simp [pushBlock, hs.height], by simp [pushBlock, tipHash, blockHash], ?_, ?_, ?_⟩
  · obtain ⟨tip, hlast, -⟩ := hs.chain.tip
    refine .extend hs.chain hlast ?_ hb
    rw [hprev, tipHash, hlast, hs.height]
  · intro hash c hc
    rw [pushBlock, lookup_insert_eq] at hc
    split at hc
    next heq =>
      cases hc
      exact .inr (.inr ⟨_, by rw [heq, hlen]; rfl, hb⟩)
    next => exact hs.store hash c hc
  · intro h0 hash hmem
    exact Finmap.mem_insert.mpr (.inr (hs.kept h0 hash hmem))

theorem validateBlock_parent (h : validateBlock C E A s b = .ok ()) (hne : s.chain ≠ []) :
    b.header.prevHash = tipHash C E s := by
  simp only [validateBlock, validateBlockHeader, checkParent, bind_eq_ok, exists_unit] at h
  obtain ⟨⟨hparent, -⟩, -⟩ := h
  rw [tipHash]
  cases hlast : s.chain.getLast? with
  | none => exact absurd (List.getLast?_eq_none_iff.mp hlast) hne
  | some tip =>
    rw [hlast] at hparent
    simpa [failIf_eq_ok] using hparent

theorem Holding.setLedger (hs : Holding C E genesis H W H' W' added s) (L : Ledger) :
    Holding C E genesis H W H' W' added (s.setLedger L) :=
  ⟨hs.heights, hs.works, hs.height, hs.bestTip, hs.chain, hs.store, hs.kept⟩

theorem Holding.refused (hs : Holding C E genesis H W H' W' added s) {e : String}
    (hr : connectBlock C E A b s = (.error e, s')) : Holding C E genesis H W H' W' added s' := by
  rcases connectBlock_error hr with ⟨-, rfl⟩ | ⟨-, L, rfl, -⟩
  · exact hs
  · exact hs.setLedger L

/-- What pushing and popping a block, a new ledger and pruning keep is kept by all that a switch consists of. -/
theorem Moves.of_keeps {P : ChainState → Prop} (hledger : ∀ s L, P s → P (setLedger L s))
    (hpush : ∀ s A b L undo mode signal finalized, validateBlock C E A s b = .ok () → P s →
      P { pushBlock C E (s.setLedger L) b undo with
        adaptiveMode := mode, reorgSignal := signal, finalizedHeight := finalized })
    (hprune : ∀ s, P s → P (pruneCaches C E s))
    (hpop : ∀ s tip undo, tipUndo C E s = .ok (tip, undo) → P s → P (popBlock C E s tip undo))
    (horphaned : ∀ s orphaned, P s → P { s with reorgOrphanedBlocks := orphaned }) : Moves C E (Keeps P) where
  connect A b := by
    intro s hs
    rcases hr : connectBlock C E A b s with ⟨e | u, s'⟩
    · rcases connectBlock_error hr with ⟨-, rfl⟩ | ⟨-, L, rfl, -⟩
      · exact hs
      · exact hledger s L hs
    · obtain ⟨hv, undo, L, -, -, rfl⟩ := connectBlock_eq_ok.mp hr
      obtain ⟨mode, signal, finalized, heq, -⟩ := acceptBlock_pushed (C := C) (E := E) (s.setLedger L) b undo
      dsimp only
      rw [heq]
      exact hprune _ (hpush s A b L undo mode signal finalized hv hs)
  disconnect := by
    intro s hs
    rcases hr : disconnectTipBlock C E s with ⟨e | tip, s'⟩
    · rw [disconnectTipBlock_error hr]
      exact hs
    · obtain ⟨undo, ht, rfl⟩ := disconnectTipBlock_eq_ok.mp hr
      exact hpop s tip undo ht hs
  orphaned := horphaned

theorem connectBlock_pushed (hs : Holding C E genesis H W H' W' added s) (hh : Submap H H') (hw : Submap W W')
    (hb : Recorded C E H W h b) (hr : connectBlock C E A b s = (.ok u, s')) :
    ∃ L undo t, Holding C E genesis H W H' W' added (pushBlock C E (s.setLedger L) b undo) ∧
      t.toBlockIndex = (pushBlock C E (s.setLedger L) b undo).toBlockIndex ∧
      t.chain = s.chain ++ [b] ∧ Holding C E genesis H W H' W' added t ∧ s' = pruneCaches C E t := by
  obtain ⟨hv, undo, L, -, -, rfl⟩ := connectBlock_eq_ok.mp hr
  have hprev := validateBlock_parent hv (List.ne_nil_of_length_pos hs.pos)
  have hpush := (hs.setLedger L).push undo hh hw hb hprev
  obtain ⟨mode, signal, finalized, heq, -⟩ := acceptBlock_pushed (C := C) (E := E) (s.setLedger L) b undo
  refine ⟨L, undo, { pushBlock C E (s.setLedger L) b undo with
    adaptiveMode := mode, reorgSignal := signal, finalizedHeight := finalized }, hpush, rfl, rfl, ?_, heq⟩
  exact ⟨hpush.heights, hpush.works, hpush.height, hpush.bestTip, hpush.chain, hpush.store, hpush.kept⟩

theorem connectBlock_holding (hh : Submap H H') (hw : Submap W W') (hb : Recorded C E H W h b) :
    Triple (Holding C E genesis H W H' W' added) (connectBlock C E A b)
      (fun _ => Holding C E genesis H W H' W' added) (Holding C E genesis H W H' W' added) := by
  intro s hs
  rcases hr : connectBlock C E A b s with ⟨e | u, s'⟩
  · exact hs.refused hr
  · obtain ⟨L, undo, t, -, -, -, ht, rfl⟩ := connectBlock_pushed hs hh hw hb hr
    exact ht.prune

theorem disconnectTipBlock_holding :
    Triple (Holding C E genesis H W H' W' added) (disconnectTipBlock C E)
      (fun tip s => Holding C E genesis H W H' W' added s ∧ ∃ h, Recorded C E H W h tip)
      (Holding C E genesis H W H' W' added) := by
  intro s hs
  rcases hr : disconnectTipBlock C E s with ⟨e | tip, s'⟩
  · rw [disconnectTipBlock_error hr]
    exact hs
  · obtain ⟨undo, ht, rfl⟩ := disconnectTipBlock_eq_ok.mp hr
    obtain ⟨hlast, hlen, -⟩ := tipUndo_eq_ok.mp ht
    obtain ⟨hchain, htip⟩ := hs.chain.pop hlast hlen
    refine ⟨⟨hs.heights, hs.works, rfl, ?_, hchain, hs.store, hs.kept⟩, htip⟩
    simp only [popBlock, tipHash]
    cases s.chain.dropLast.getLast? <;> rfl

def AllRecorded (C : Crypto) (E : NodeEnv) (H W : FinMap Hash32 Nat) (bs : List Block) : Prop :=
  ∀ b ∈ bs, ∃ h, Recorded C E H W h b

section

variable (hh : Submap H H') (hw : Submap W W')

include hh hw

theorem holding_moves :
    MovesWithin C E (fun b => ∃ h, Recorded C E H W h b) (Holding C E genesis H W H' W' added) where
  connect _ _ hb := let ⟨_, hrec⟩ := hb; connectBlock_holding hh hw hrec
  disconnect := disconnectTipBlock_holding
  orphaned _ _ hs := ⟨hs.heights, hs.works, hs.height, hs.bestTip, hs.chain, hs.store, hs.kept⟩

theorem Holding.promote (hs : Holding C E genesis H W H' W' (some (hash, b)) s)
    (hb : Entry C E genesis H' W' hash b) : Holding C E genesis H' W' H' W' none s := by
  refine ⟨hs.heights, hs.works, hs.height, hs.bestTip, hs.chain.mono hh hw, fun k c hc => .inr ?_, hs.kept⟩
  rcases hs.store k c hc with hadded | hentry
  · obtain ⟨rfl, rfl⟩ := Prod.mk.inj (Option.some.inj hadded)
    exact hb
  · exact hentry.mono hh hw

variable (hb : Recorded C E H' W' h b) (hhash : hash = b.header.hashForHeight C E (h + 1))

include hb hhash

theorem connectBlock_added :
    Triple (Holding C E genesis H W H' W' (some (hash, b))) (connectBlock C E A b)
      (fun _ => Holding C E genesis H' W' H' W' none) (Holding C E genesis H W H' W' (some (hash, b))) := by
  intro s hs
  rcases hr : connectBlock C E A b s with ⟨e | u, s'⟩
  · exact hs.refused hr
  · exact (connectBlock_holding (.refl H') (.refl W') hb).ok (hs.promote hh hw (.inr ⟨h, hhash, hb⟩)) hr

theorem connectBranch_added {disconnected branch : List Block} (hdis : AllRecorded C E H W disconnected)
    (hbranch : AllRecorded C E H W branch) (connected : Nat) :
    Triple (Holding C E genesis H W H' W' (some (hash, b)))
      (connectBranch C E A disconnected (branch ++ [b]) connected)
      (fun _ => Holding C E genesis H' W' H' W' none) (Holding C E genesis H W H' W' (some (hash, b))) := by
  have hmoves : MovesWithin C E (fun b => ∃ h, Recorded C E H W h b)
      (Holding C E genesis H W H' W' (some (hash, b))) := holding_moves hh hw
  have hback := fun connected e => hmoves.restore A hdis connected ("reorg connect failed: " ++ e)
    fun _ => Holding C E genesis H' W' H' W' none
  induction branch generalizing connected with
  | nil => exact .attempt_bind (connectBlock_added hh hw hb hhash) (fun _ => .pure fun _ hs => hs) (hback connected)
  | cons c rest ih =>
    obtain ⟨⟨hc, hrec⟩, hrest⟩ := List.forall_mem_cons.mp hbranch
    exact .attempt_bind (connectBlock_holding hh hw hrec) (fun _ => ih hrest (connected + 1)) (hback connected)

end

theorem Holding.genesis_onMainChain (hs : Holding C E genesis H W H' W' added s) (hh : Submap H H') :
    isHashOnMainChain C E s (genesis.header.hashForHeight C E 0) = some 0 := by
  obtain ⟨hhead, hheight, -⟩ := hs.chain.head
  simp [isHashOnMainChain, hs.heights, hh _ _ hheight, hhead]

theorem walkBack_recorded (hs : Holding C E genesis H W H' W' added s) (hh : Submap H H')
    (hclosed : Closed C E genesis H W) (hfresh : ∀ p ∈ added, p.1 ∉ H) {fuel : Nat} {branch : List Block}
    {path : Nat × List Block} (hcur : H.lookup hash = some h) (hwalk : walkBack C E s fuel hash branch = .ok path) :
    ∃ below, path.2 = below ++ branch ∧ AllRecorded C E H W below := by
  induction fuel generalizing hash branch h with
  | zero => simp [walkBack] at hwalk
  | succ fuel ih =>
    rw [walkBack] at hwalk
    cases hmain : isHashOnMainChain C E s hash with
    | some a =>
      rw [hmain] at hwalk
      cases hwalk
      exact ⟨[], rfl, by simp [AllRecorded]⟩
    | none =>
      rw [hmain] at hwalk
      simp only [bind_eq_ok, exists_unit, orFail_eq_ok, failIf_eq_ok] at hwalk
      obtain ⟨c, hc, -, hrest⟩ := hwalk
      have hne : hash ≠ genesis.header.hashForHeight C E 0 := by
        rintro rfl
        rw [hs.genesis_onMainChain hh] at hmain
        cases hmain
      have hrec : ∃ h', Recorded C E H W h' c := by
        rw [blockByHash] at hc
        cases hstore : s.blockStore.lookup hash with
        | some c' =>
          rw [hstore] at hc
          cases hc
          rcases hs.store hash c hstore with hadded | ⟨heq, -⟩ | ⟨h', -, hrec⟩
          · exact absurd (Finmap.mem_of_lookup_eq_some hcur) (hfresh _ hadded)
          · exact absurd heq hne
          · exact ⟨h', hrec⟩
        | none =>
          -- a block that has left the store is sought at its height of the main chain
          simp only [hstore, hs.heights, hh _ _ hcur, Option.bind_eq_bind, Option.bind_some] at hc
          rcases hs.chain.getElem? hc with ⟨rfl, -, -⟩ | ⟨h', -, hrec⟩
          · rcases hclosed.known hash 0 hcur with ⟨heq, -⟩ | ⟨_, h', hzero, -⟩
            · exact absurd heq hne
            · omega
          · exact ⟨h', hrec⟩
      obtain ⟨h', hrec⟩ := hrec
      obtain ⟨below, hbelow, hall⟩ := ih hrec.parent hrest
      refine ⟨below ++ [c], by rw [hbelow]; simp, ?_⟩
      intro d hd
      rcases List.mem_append.mp hd with hd | hd
      · exact hall d hd
      · exact ⟨h', List.mem_singleton.mp hd ▸ hrec⟩

section

variable (hh : Submap H H') (hw : Submap W W') (hb : Recorded C E H' W' h b)
  (hhash : hash = b.header.hashForHeight C E (h + 1)) (hclosed : Closed C E genesis H W) (hfresh : hash ∉ H)
  (hparent : H.lookup b.header.prevHash = some h)

include hh hclosed hfresh hparent

theorem findReorgPath_added (hs : Holding C E genesis H W H' W' (some (hash, b)) s)
    (hstore : s.blockStore.lookup hash = some b) {path : Nat × List Block}
    (hpath : findReorgPath C E s hash = .ok path) : ∃ below, path.2 = below ++ [b] ∧ AllRecorded C E H W below := by
  have hoff : isHashOnMainChain C E s hash = none := by
    rw [Option.eq_none_iff_forall_not_mem]
    intro i hi
    simp only [isHashOnMainChain, Option.mem_def, Option.bind_eq_bind, Option.bind_eq_some_iff, Option.ite_none_right_eq_some,
      Option.some.injEq] at hi
    obtain ⟨_, -, c, hc, rfl, rfl⟩ := hi
    rcases hs.chain.getElem? hc with ⟨rfl, -, hheight⟩ | ⟨h', rfl, hrec⟩
    · exact hfresh (Finmap.mem_of_lookup_eq_some hheight)
    · exact hfresh (Finmap.mem_of_lookup_eq_some hrec.height)
  simp only [findReorgPath, walkBack, hoff, blockByHash, hstore, bind_eq_ok, exists_unit, orFail_eq_ok,
    Option.some.injEq, exists_eq_left'] at hpath
  exact walkBack_recorded hs hh hclosed (by rintro _ ⟨⟩; exact hfresh) hparent hpath.2

include hw hb hhash

theorem reorgToTip_added :
    Triple (fun s => Holding C E genesis H W H' W' (some (hash, b)) s ∧ s.blockStore.lookup hash = some b)
      (reorgToTip C E A hash) (fun _ => Holding C E genesis H' W' H' W' none)
      (Holding C E genesis H W H' W' (some (hash, b))) := by
  refine .read_bind fun s ⟨hs, hstore⟩ => .lift_bind (fun _ ht => ht ▸ hs) fun path hpath => ?_
  split
  next => exact .pure fun _ ht => ht ▸ hs.promote hh hw (.inr ⟨h, hhash, hb⟩)
  next =>
    refine .lift_bind (fun _ ht => ht ▸ hs) fun _ _ => ?_
    obtain ⟨below, hbelow, hall⟩ := findReorgPath_added hh hclosed hfresh hparent hs hstore hpath
    rw [hbelow]
    refine .read_bind fun t ht => ?_
    obtain rfl := ht
    refine .bind (((holding_moves hh hw).disconnectTo path.1 _).weaken_pre fun _ ht => ht ▸ hs) fun disconnected =>
      .assume fun hdis => .bind (connectBranch_added hh hw hb hhash hdis hall 0) fun _ => ?_
    exact fun t ht => ⟨ht.heights, ht.works, ht.height, ht.bestTip, ht.chain, ht.store, ht.kept⟩

theorem adoptBlock_added (p : Placement) (hp : p.hash = hash) :
    Triple (fun s => Holding C E genesis H W H' W' (some (hash, b)) s ∧ s.blockStore.lookup hash = some b)
      (adoptBlock C E A b p) (fun _ => Holding C E genesis H' W' H' W' none)
      (Holding C E genesis H W H' W' (some (hash, b))) := by
  refine .read_bind fun s hs => ?_
  split
  next =>
    exact .bind ((connectBlock_added hh hw hb hhash).weaken_pre fun _ ht => ht ▸ hs.1) fun _ => .pure fun _ ht => ht
  next =>
    refine .lift_bind (fun _ ht => ht ▸ hs.1) fun better _ => ?_
    cases better with
    | true =>
      rw [hp]
      exact .bind ((reorgToTip_added hh hw hb hhash hclosed hfresh hparent).weaken_pre fun _ ht => ht ▸ hs) fun _ =>
        .pure fun _ ht => ht
    | false => exact .pure fun _ ht => ht ▸ hs.1.promote hh hw (.inr ⟨h, hhash, hb⟩)

end

def Consistent (C : Crypto) (E : NodeEnv) (genesis : Block) (s : ChainState) : Prop :=
  Holding C E genesis s.heights s.cumulativeWork s.heights s.cumulativeWork none s ∧
    Closed C E genesis s.heights s.cumulativeWork

/-- The block names a parent, and it is not one whose height is still known while a pruning node has dropped it
from the store. -/
def Indexable (C : Crypto) (E : NodeEnv) (s : ChainState) (b : Block) : Prop :=
  b.header.prevHash ≠ ByteVec.zero 32 ∧ (blockStoreWindow E ≠ 0 → b.header.prevHash ∈ s.blockStore →
    (place C E s b).hash ∈ s.heights → (place C E s b).hash ∈ s.blockStore)

instance (C : Crypto) (E : NodeEnv) (s : ChainState) (b : Block) : Decidable (Indexable C E s b) :=
  inferInstanceAs (Decidable (_ ∧ _))

theorem Entry.lookup (hs : Holding C E genesis H W H' W' added s) (he : Entry C E genesis H W hash b) :
    ∃ h w, H.lookup hash = some h ∧ W.lookup hash = some w ∧ hash = b.header.hashForHeight C E h := by
  rcases he with ⟨rfl, rfl⟩ | ⟨h, rfl, hb⟩
  · obtain ⟨-, hheight, hwork⟩ := hs.chain.head
    exact ⟨0, _, hheight, hwork, rfl⟩
  · obtain ⟨w, -, hown⟩ := hb.work
    exact ⟨h + 1, _, hb.height, hown, rfl⟩

theorem place_eq {h : Nat} (hne : b.header.prevHash ≠ ByteVec.zero 32)
    (hheight : s.heights.lookup b.header.prevHash = some h)
    (hwork : s.cumulativeWork.lookup b.header.prevHash = some w) :
    place C E s b = ⟨h + 1, b.header.hashForHeight C E (h + 1), h + 1, w + b.work⟩ := by
  simp [place, hne, hheight, hwork]

theorem Closed.insert (hc : Closed C E genesis H W) (hh : Submap H (H.insert hash (h + 1)))
    (hw : Submap W (W.insert hash w)) (hhash : hash = b.header.hashForHeight C E (h + 1))
    (hb : Recorded C E (H.insert hash (h + 1)) (W.insert hash w) h b) :
    Closed C E genesis (H.insert hash (h + 1)) (W.insert hash w) := by
  constructor
  · intro k i hk
    rw [lookup_insert_eq] at hk
    split at hk
    next heq =>
      cases hk
      exact .inr ⟨b, h, rfl, heq.trans hhash, hb⟩
    next =>
      rcases hc.known k i hk with hgen | ⟨c, j, hi, hkc, hrec⟩
      · exact .inl hgen
      · exact .inr ⟨c, j, hi, hkc, hrec.mono hh hw⟩
  · intro k hk
    rw [Finmap.mem_insert] at hk ⊢
    exact hk.imp_right (hc.worked k)

theorem Holding.remove {v : Nat} (hs : Holding C E genesis H W (H.insert hash v) (W.insert hash w) (some (hash, b)) s)
    (hfresh : hash ∉ H) (hfresh' : hash ∉ W) : Holding C E genesis H W H W none (removeFromIndex s hash) := by
  refine ⟨?_, ?_, hs.height, hs.bestTip, hs.chain, ?_, ?_⟩
  · rw [removeFromIndex, hs.heights, erase_insert, erase_of_notMem hfresh]
  · rw [removeFromIndex, hs.works, erase_insert, erase_of_notMem hfresh']
  · intro k c hc
    rw [removeFromIndex, lookup_erase_eq] at hc
    split at hc
    next => cases hc
    next hne =>
      rcases hs.store k c hc with hadded | hentry
      · exact absurd (Prod.mk.inj (Option.some.inj hadded)).1.symm hne
      · exact .inr hentry
  · intro h0 k hk
    have hne : k ≠ hash := fun heq => hfresh (heq ▸ hk)
    exact Finmap.mem_erase.mpr ⟨hne, hs.kept h0 k (Finmap.mem_insert.mpr (.inr hk))⟩

theorem checkPlacement_new (h : checkPlacement C E s b p = .ok u) : p.hash ∉ s.blockStore := by
  simp only [checkPlacement, bind_eq_ok, exists_unit, failIf_eq_ok] at h
  exact h.1

/-- A block that has passed the first checks, under a hash that the maps do not know yet. -/
structure Placed (C : Crypto) (E : NodeEnv) (genesis : Block) (s : ChainState) (b : Block) (h w : Nat)
    (hash : Hash32) : Prop where
  eq : place C E s b = ⟨h + 1, hash, h + 1, w + b.work⟩
  own : hash = b.header.hashForHeight C E (h + 1)
  parent : s.heights.lookup b.header.prevHash = some h
  newHeight : hash ∉ s.heights
  newWork : hash ∉ s.cumulativeWork
  recorded : Recorded C E (s.heights.insert hash (h + 1)) (s.cumulativeWork.insert hash (w + b.work)) h b
  added : Holding C E genesis s.heights s.cumulativeWork (s.heights.insert hash (h + 1))
    (s.cumulativeWork.insert hash (w + b.work)) (some (hash, b)) (addToIndex s b (place C E s b))
  stored : (addToIndex s b (place C E s b)).blockStore.lookup hash = some b

theorem Consistent.adds (hs : Consistent C E genesis s) (hheight : s.heights.lookup b.header.prevHash = some h)
    (hwork : s.cumulativeWork.lookup b.header.prevHash = some w) (hown : hash = b.header.hashForHeight C E (h + 1))
    (hfresh : hash ∉ s.heights) (hp : p.hash = hash) (hp' : p.height = h + 1) (hpw : p.cumulative = w + b.work) :
    Recorded C E (s.heights.insert hash (h + 1)) (s.cumulativeWork.insert hash (w + b.work)) h b ∧
      Holding C E genesis s.heights s.cumulativeWork (s.heights.insert hash (h + 1))
        (s.cumulativeWork.insert hash (w + b.work)) (some (hash, b)) (addToIndex s b p) := by
  obtain ⟨hold, hclosed⟩ := hs
  have hh := submap_insert_of_notMem (v := h + 1) hfresh
  have hw := submap_insert_of_notMem (v := w + b.work) fun hmem => hfresh (hclosed.worked _ hmem)
  refine ⟨⟨?_, hh _ _ hheight, w, hw _ _ hwork, ?_⟩, ?_⟩
  · rw [← hown, Finmap.lookup_insert]
  · rw [← hown, Finmap.lookup_insert]
  · refine ⟨by rw [addToIndex, hp, hp'], by rw [addToIndex, hp, hpw], hold.height, hold.bestTip, hold.chain, ?_, ?_⟩
    · intro k c hc
      rw [addToIndex, hp, lookup_insert_eq] at hc
      split at hc
      next heq =>
        cases hc
        exact .inl (heq ▸ rfl)
      next => exact (hold.store k c hc).imp_left fun hnone => by cases hnone
    · intro h0 k hk
      rw [addToIndex, hp, Finmap.mem_insert]
      exact (Finmap.mem_insert.mp hk).imp_right (hold.kept h0 k)

theorem Consistent.placed (hs : Consistent C E genesis s) (hb : Indexable C E s b)
    (hparent : b.header.prevHash ≠ ByteVec.zero 32 → b.header.prevHash ∈ s.blockStore)
    (hcheck : checkPlacement C E s b (place C E s b) = .ok ()) : ∃ h w hash, Placed C E genesis s b h w hash := by
  obtain ⟨hold, hclosed⟩ := hs
  obtain ⟨hne, hforgotten⟩ := hb
  obtain ⟨parent, hlookup⟩ := Option.isSome_iff_exists.mp (Finmap.lookup_isSome.mpr (hparent hne))
  have hentry : Entry C E genesis s.heights s.cumulativeWork b.header.prevHash parent := by
    rcases hold.store _ _ hlookup with hadded | hentry
    · cases hadded
    · exact hentry
  obtain ⟨h, w, hheight, hwork, -⟩ := hentry.lookup hold
  have hplace := place_eq (C := C) (E := E) hne hheight hwork
  have hnew := checkPlacement_new hcheck
  have hfresh : (place C E s b).hash ∉ s.heights := by
    intro hmem
    by_cases h0 : blockStoreWindow E = 0
    · exact hnew (hold.kept h0 _ hmem)
    · exact hnew (hforgotten h0 (hparent hne) hmem)
  have hfresh' : (place C E s b).hash ∉ s.cumulativeWork := fun hmem => hfresh (hclosed.worked _ hmem)
  generalize hhash : (place C E s b).hash = hash at hnew hfresh hfresh'
  have hown : hash = b.header.hashForHeight C E (h + 1) := by rw [← hhash, hplace]
  obtain ⟨hrecorded, hadded⟩ := Consistent.adds ⟨hold, hclosed⟩ hheight hwork hown hfresh hhash (by rw [hplace])
    (by rw [hplace])
  refine ⟨h, w, hash, by rw [hplace, hown], hown, hheight, hfresh, hfresh', hrecorded, hadded, ?_⟩
  rw [addToIndex, hhash, Finmap.lookup_insert]

theorem Holding.consistent (hs : Holding C E genesis H W H W none s) (hc : Closed C E genesis H W) :
    Consistent C E genesis s := by
  rw [Consistent, hs.heights, hs.works]
  exact ⟨hs, hc⟩

/-- A block that is placed, whether it is adopted, left on a side branch or refused, keeps the index consistent; at most
its own height is new. -/
theorem indexAndAdopt_indexed (hs : Consistent C E genesis s) (hb : Indexable C E s b)
    (hparent : b.header.prevHash ≠ ByteVec.zero 32 → b.header.prevHash ∈ s.blockStore)
    (hcheck : checkPlacement C E s b (place C E s b) = .ok ()) :
    Consistent C E genesis (indexAndAdopt C E A b (place C E s b) s).2 ∧
      ((indexAndAdopt C E A b (place C E s b) s).2.heights = s.heights ∨
        (indexAndAdopt C E A b (place C E s b) s).2.heights =
          s.heights.insert (place C E s b).hash (place C E s b).height) := by
  obtain ⟨h, w, hash, hp⟩ := hs.placed hb hparent hcheck
  have hhash : (place C E s b).hash = hash := by rw [hp.eq]
  have hheight : (place C E s b).height = h + 1 := by rw [hp.eq]
  have hh := submap_insert_of_notMem (v := h + 1) hp.newHeight
  have hw := submap_insert_of_notMem (v := w + b.work) hp.newWork
  rw [hhash, hheight]
  refine Triple.final (P := (· = s)) (F := fun t => Consistent C E genesis t ∧
    (t.heights = s.heights ∨ t.heights = s.heights.insert hash (h + 1))) ?_ rfl
  refine .update_bind (fun t ht => by rw [ht]; exact ⟨hp.added, hp.stored⟩) (.attempt_bind
    (adoptBlock_added hh hw hp.recorded hp.own hs.2 hp.newHeight hp.parent _ hhash) (fun advanced => ?_) fun e => ?_)
  · exact .pure fun t ht => ⟨ht.consistent (hs.2.insert hh hw hp.own hp.recorded), .inr ht.heights⟩
  · refine .update_bind (fun t ht => ?_) (.fail (fun _ ht => ht) e)
    have hremoved := ht.remove hp.newHeight hp.newWork
    rw [hhash]
    exact ⟨hremoved.consistent hs.2, .inl hremoved.heights⟩

theorem new_consistent (h : new C E A params = some s) :
    Consistent C E params.genesisBlock s := by
  obtain ⟨undo, L, -, rfl⟩ := new_eq_some h
  have hheight : ∀ hash h, ((∅ : FinMap Hash32 Nat).insert (params.genesisBlock.header.hashForHeight C E 0) 0).lookup hash =
      some h → hash = params.genesisBlock.header.hashForHeight C E 0 ∧ h = 0 := by
    intro hash h hk
    rw [lookup_insert_eq] at hk
    split at hk
    next heq => exact ⟨heq, (Option.some.inj hk).symm⟩
    next => simp at hk
  refine ⟨⟨rfl, rfl, rfl, rfl, .genesis (Finmap.lookup_insert _) (Finmap.lookup_insert _), ?_, ?_⟩, ?_, ?_⟩
  · intro hash b hb
    simp only [indexGenesis, acceptGenesis, lookup_insert_eq] at hb
    split at hb
    next heq => exact .inr (.inl ⟨heq, (Option.some.inj hb).symm⟩)
    next => simp [blank, setLedger] at hb
  · exact fun _ hash hk => by
      simpa [indexGenesis, acceptGenesis, setLedger, blank, Finmap.mem_insert, Finmap.notMem_empty] using hk
  · exact fun hash h hk => .inl (hheight hash h hk)
  · exact fun hash hk => by
      simpa [indexGenesis, acceptGenesis, setLedger, blank, Finmap.mem_insert, Finmap.notMem_empty] using hk

structure IndexSound (C : Crypto) (E : NodeEnv) (genesis : Block) (s : ChainState) : Prop where
  linked : ∀ hash h, s.heights.lookup hash = some h → hash ≠ genesis.header.hashForHeight C E 0 →
    ∃ b h' w, hash = b.header.hashForHeight C E h ∧ (∀ c, s.blockStore.lookup hash = some c → c = b) ∧
      s.heights.lookup b.header.prevHash = some h' ∧ h = h' + 1 ∧
      s.cumulativeWork.lookup b.header.prevHash = some w ∧ s.cumulativeWork.lookup hash = some (w + b.work)
  stored : ∀ hash b, s.blockStore.lookup hash = some b →
    ∃ h w, s.heights.lookup hash = some h ∧ s.cumulativeWork.lookup hash = some w ∧
      hash = b.header.hashForHeight C E h
  tip : ∃ b, s.chain.getLast? = some b ∧ s.bestTip = b.header.hashForHeight C E (s.chain.length - 1)
  work : s.cumulativeWork.lookup s.bestTip = some s.totalWork

theorem Consistent.sound (hs : Consistent C E genesis s) : IndexSound C E genesis s := by
  obtain ⟨hold, hclosed⟩ := hs
  have hentry : ∀ hash b, s.blockStore.lookup hash = some b → Entry C E genesis s.heights s.cumulativeWork hash b := by
    intro hash b hb
    rcases hold.store hash b hb with hadded | hentry
    · cases hadded
    · exact hentry
  refine ⟨fun hash h hh hne => ?_, fun hash b hb => (hentry hash b hb).lookup hold, ?_, ?_⟩
  · have hrec : ∃ b h', hash = b.header.hashForHeight C E (h' + 1) ∧ (∀ c, s.blockStore.lookup hash = some c → c = b) ∧
        Recorded C E s.heights s.cumulativeWork h' b := by
      cases hb : s.blockStore.lookup hash with
      | some b =>
        rcases hentry hash b hb with ⟨heq, -⟩ | ⟨h', hhash, hrec⟩
        · exact absurd heq hne
        · exact ⟨b, h', hhash, fun c hc => (Option.some.inj hc).symm, hrec⟩
      | none =>
        rcases hclosed.known hash h hh with ⟨heq, -⟩ | ⟨b, h', -, hhash, hrec⟩
        · exact absurd heq hne
        · exact ⟨b, h', hhash, fun c hc => by simp at hc, hrec⟩
    obtain ⟨b, h', rfl, hstore, hrec⟩ := hrec
    obtain rfl := Option.some.inj (hh.symm.trans hrec.height)
    obtain ⟨w, hparent, hown⟩ := hrec.work
    exact ⟨b, h', w, rfl, hstore, hrec.parent, rfl, hparent, hown⟩
  · obtain ⟨tip, hlast, -⟩ := hold.chain.tip
    exact ⟨tip, hlast, by rw [hold.bestTip, tipHash, hlast, hold.height]⟩
  · rw [hold.bestTip]
    exact hold.tip.2

theorem Consistent.setPool (hs : Consistent C E genesis s) (pool : FinMap Hash32 (List Block)) :
    Consistent C E genesis { s with orphanPool := pool } := by
  obtain ⟨hold, hclosed⟩ := hs
  exact ⟨⟨rfl, rfl, hold.height, hold.bestTip, hold.chain, hold.store, hold.kept⟩, hclosed⟩

theorem Consistent.prune (hs : Consistent C E genesis s) : Consistent C E genesis (pruneCaches C E s) := by
  obtain ⟨hold, hclosed⟩ := hs
  exact hold.prune.consistent hclosed

theorem calls_consistent {s₀ : ChainState} (hnew : new C E A params = some s₀)
    (hrun : ReflTransGen (CallStep C E (Indexable C E)) s₀ s) : Consistent C E params.genesisBlock s := by
  refine calls_keep (P := Consistent C E params.genesisBlock) ?_ ?_ ?_ hrun (new_consistent hnew)
  · exact fun t pool ht => ht.setPool pool
  · exact fun t ht => ht.prune
  · exact fun A b t hb hparent hcheck ht => (indexAndAdopt_indexed ht hb hparent hcheck).1

/-- As long as every block that is processed names a parent and is none that the store has dropped, the index is
sound, whatever blocks arrive and in whatever order. -/
theorem index_sound {params : ChainParams} {s₀ : ChainState} (hnew : new C E A params = some s₀)
    (hrun : ReflTransGen (CallStep C E (Indexable C E)) s₀ s) : IndexSound C E params.genesisBlock s :=
  (calls_consistent hnew hrun).sound

def lowBlock : Block := committeeBlock lockedGenesisHash 1767583931 1
def lowHash : Hash32 := beVec 32 0x3224e2d5ff9604977a419dd95e2fcc86a27a7609b4874bb46f70b1515e4c7add

def firstChild : Block := committeeBlock lowHash 1767583932 3
def rivalChild : Block := committeeBlock lowHash 1767583933 4
def rivalGrandchild : Block :=
  committeeBlock (beVec 32 0x1e64348dc8f90bd7a6828f27c6cb85785480025736f0a5d1eb7c236c12726503) 1767583934 0

theorem reorganized_index_sound :
    ∃ s₀ s, new shaCrypto devnetNode quietAmbient devnetParams = some s₀ ∧
      ReflTransGen (CallStep shaCrypto devnetNode (Indexable shaCrypto devnetNode)) s₀ s ∧
      s.chain = [lockedGenesis, lowBlock, rivalChild, rivalGrandchild] ∧
      IndexSound shaCrypto devnetNode devnetParams.genesisBlock s := by
  obtain ⟨s₀, hnew, hcalls, hchain⟩ := exists_of_any (new shaCrypto devnetNode quietAmbient devnetParams)
    (fun s₀ =>
      let s₁ := (processBlock shaCrypto devnetNode quietAmbient 2 lowBlock s₀).2
      let s₂ := (processBlock shaCrypto devnetNode quietAmbient 2 firstChild s₁).2
      let s₃ := (processBlock shaCrypto devnetNode quietAmbient 2 rivalChild s₂).2
      (∀ call ∈ processCalls shaCrypto devnetNode quietAmbient 2 lowBlock s₀ ++
            processCalls shaCrypto devnetNode quietAmbient 2 firstChild s₁ ++
            processCalls shaCrypto devnetNode quietAmbient 2 rivalChild s₂ ++
            processCalls shaCrypto devnetNode quietAmbient 2 rivalGrandchild s₃,
          Indexable shaCrypto devnetNode call.1 call.2) ∧
        (processBlock shaCrypto devnetNode quietAmbient 2 rivalGrandchild s₃).2.chain =
          [lockedGenesis, lowBlock, rivalChild, rivalGrandchild]) (by decide +kernel)
  simp only [List.forall_mem_append] at hcalls
  obtain ⟨⟨⟨h₁, h₂⟩, h₃⟩, h₄⟩ := hcalls
  have hrun : ReflTransGen (CallStep shaCrypto devnetNode (Indexable shaCrypto devnetNode)) s₀ _ :=
    .tail (.tail (.tail (.tail .refl ⟨quietAmbient, 2, lowBlock, h₁, rfl⟩) ⟨quietAmbient, 2, firstChild, h₂, rfl⟩)
      ⟨quietAmbient, 2, rivalChild, h₃, rfl⟩) ⟨quietAmbient, 2, rivalGrandchild, h₄, rfl⟩
  exact ⟨s₀, _, hnew, hrun, hchain, index_sound hnew hrun⟩

def rootlessBlock : Block := committeeBlock (ByteVec.zero 32) 1767583931 1
def rootlessHash : Hash32 := beVec 32 0x4b12b702d873b871cfcece508f1f853c41475ca8d3eed1ed07d486ae7d83a7af

/-- It is stored at height 1 under the hash it has at height 0, and its parent is unknown. -/
theorem rootless_block_stored :
    ∃ s₀ s, new shaCrypto devnetNode quietAmbient devnetParams = some s₀ ∧
      processBlock shaCrypto devnetNode quietAmbient 2 rootlessBlock s₀ = (.error "block stored on side chain", s) ∧
      s.blockStore.lookup rootlessHash = some rootlessBlock ∧ s.heights.lookup rootlessHash = some 1 ∧
      rootlessBlock.header.hashForHeight shaCrypto devnetNode 1 ≠ rootlessHash ∧
      rootlessBlock.header.prevHash ∉ s.heights ∧ ¬ IndexSound shaCrypto devnetNode devnetParams.genesisBlock s := by
  obtain ⟨s₀, hnew, hresult, hstore, hheight, hhash, hparent⟩ :=
    exists_of_any (new shaCrypto devnetNode quietAmbient devnetParams)
    (fun s₀ =>
      let r := processBlock shaCrypto devnetNode quietAmbient 2 rootlessBlock s₀
      r.1 = .error "block stored on side chain" ∧ r.2.blockStore.lookup rootlessHash = some rootlessBlock ∧
        r.2.heights.lookup rootlessHash = some 1 ∧
        rootlessBlock.header.hashForHeight shaCrypto devnetNode 1 ≠ rootlessHash ∧
        rootlessBlock.header.prevHash ∉ r.2.heights) (by decide +kernel)
  refine ⟨s₀, _, hnew, Prod.ext hresult rfl, hstore, hheight, hhash, hparent, fun hsound => ?_⟩
  obtain ⟨i, w, hi, -, heq⟩ := hsound.stored _ _ hstore
  obtain rfl := Option.some.inj (hheight.symm.trans hi)
  exact hhash heq.symm

end ChainState

end IriumConsensus
