import IriumConsensus.Lib.UndoStack
import IriumConsensus.WellFormed

namespace IriumConsensus

open FinMaps UndoStack

/-- The outputs that a chain leaves unspent when its blocks, newest first, are applied from the
start. -/
def replay (C : Crypto) : List Block → FinMap OutPoint UtxoEntry
  | [] => ∅
  | b :: below => insertAll (eraseAll (replay C below) b.spentOutpoints) (b.created C below.length)

/-- A chain, newest block first, whose blocks were each applied to outputs that the blocks below
leave, and what it has issued. -/
inductive Mined (C : Crypto) (E : NodeEnv) (Offered : Nat → Block → Prop) : List Block → Nat → Prop
  | nil : Mined C E Offered [] 0
  | cons {b : Block} {below : List Block} {issued reward : Nat} {P : ChainParams} {L L' : Ledger} {undo : BlockUndo}
      {enforce : Bool} {m : Option Nat} (hbelow : Mined C E Offered below issued) (hb : Offered below.length b)
      (hsub : Submap L.utxos (replay C below))
      (ha : BlockApplied C E P below.length b reward enforce m L undo L') :
      Mined C E Offered (b :: below) (issued + undo.subsidyCreated)

/-- The undo data of a block on top of a chain: it names all that the block created, and the outputs
it puts back are those that the chain below left. -/
structure UndoFits (C : Crypto) (below : List Block) (b : Block) (undo : BlockUndo) : Prop where
  created : undo.created = (b.created C below.length).map Prod.fst
  spent : ∀ op entry, (op, entry) ∈ undo.spent → (replay C below).lookup op = some entry

def blockKey (C : Crypto) (E : NodeEnv) (below : List Block) (b : Block) : Hash32 :=
  b.header.hashForHeight C E below.length

/-- A state's outputs are left by its chain, and will be after any number of disconnects. -/
structure Replays (C : Crypto) (E : NodeEnv) (Offered : Nat → Block → Prop) (s : ChainState) : Prop where
  utxos : Submap s.utxos (replay C s.chain.reverse)
  rewinds : Rewinds (blockKey C E) (UndoFits C) (fun undo issued => issued - undo.subsidyCreated)
    (Mined C E Offered) s.chain.reverse s.undoLogs s.issued

variable {C : Crypto} {E : NodeEnv} {A : Ambient} {Offered : Nat → Block → Prop}

section

variable {P : ChainParams} {below : List Block} {b : Block} {reward : Nat} {enforce : Bool} {m : Option Nat}
  {L L' : Ledger} {undo : BlockUndo}

theorem BlockApplied.seen_utxos (h : BlockApplied C E P below.length b reward enforce m L undo L') :
    L'.utxos = insertAll (eraseAll L.utxos b.spentOutpoints) (b.created C below.length) ∧
      undo.spent = entriesAt L.utxos b.spentOutpoints ∧
      undo.created = (b.created C below.length).map Prod.fst := by
  cases h with
  | @mk coinbase txs acc entries updates Lr htxs _ hacc hm _ _ _ _ =>
    have hseen : acc.seen = b.spentOutpoints := by
      rw [hacc.seen_eq, Block.spentOutpoints, htxs]
      rfl
    refine ⟨?_, ?_, rfl⟩
    · rw [Ledger.commit, hseen, hm.utxos]
    · rw [Ledger.spentBy, hseen, hm.utxos]

theorem BlockApplied.submap_replay (h : BlockApplied C E P below.length b reward enforce m L undo L')
    (hsub : Submap L.utxos (replay C below)) : Submap L'.utxos (replay C (b :: below)) := by
  rw [h.seen_utxos.1]
  exact (hsub.eraseAll _).insertAll _

theorem BlockApplied.undoFits (h : BlockApplied C E P below.length b reward enforce m L undo L')
    (hsub : Submap L.utxos (replay C below)) : UndoFits C below b undo := by
  obtain ⟨-, hspent, hcreated⟩ := h.seen_utxos
  refine ⟨hcreated, fun op entry hmem => ?_⟩
  rw [hspent] at hmem
  exact hsub op entry (mem_entriesAt.mp hmem).2

theorem UndoFits.revert_submap {utxos : FinMap OutPoint UtxoEntry} (h : UndoFits C below b undo)
    (hsub : Submap utxos (replay C (b :: below))) :
    Submap (insertAll (eraseAll utxos undo.created) undo.spent) (replay C below) := by
  intro op entry hlook
  by_cases hs : op ∈ undo.spent.map Prod.fst
  · obtain ⟨entry', hmem, hl⟩ := lookup_insertAll_of_mem (m := eraseAll utxos undo.created) hs
    rw [hl, Option.some.injEq] at hlook
    subst hlook
    exact h.spent op entry' hmem
  · rw [lookup_insertAll_of_notMem hs, lookup_eraseAll] at hlook
    split at hlook
    next => simp at hlook
    next hc =>
      -- neither created nor put back: the output was there before the block
      rw [h.created] at hc
      have hr := hsub op entry hlook
      rw [replay, lookup_insertAll_of_notMem hc, lookup_eraseAll] at hr
      split at hr
      next => simp at hr
      next => exact hr

end

namespace ChainState

variable {s s' : ChainState} {b tip : Block} {undo : BlockUndo} {L : Ledger}

theorem new_replays {params : ChainParams} (hg : Offered 0 params.genesisBlock) (h : new C E A params = some s) :
    Replays C E Offered s := by
  obtain ⟨undo, L, hL, rfl⟩ := new_eq_some h
  have ha := (validateAndApplyTransactions_triple _ _ _ _).ok rfl hL
  have hsub : Submap (blank E params).utxos (replay C []) := .refl _
  have hmined : Mined C E Offered [params.genesisBlock] undo.subsidyCreated := by
    have hm := Mined.cons (.nil (C := C) (E := E)) hg hsub ha
    rwa [Nat.zero_add] at hm
  have hutxos : Submap L.utxos (replay C [params.genesisBlock]) := BlockApplied.submap_replay ha hsub
  refine ⟨hutxos, hmined, ?_⟩
  -- no undo data is kept for the genesis block
  intro u hu
  simp [indexGenesis, acceptGenesis, setLedger, blank] at hu

theorem WellFormed.applied_reverse (hw : WellFormed C E s) (ha : Applied C E s b undo L) :
    BlockApplied C E s.params s.chain.reverse.length b (blockReward E s.height) true
      (some (wrappingSub64 maxMoney s.issued)) s.toLedger undo L := by
  rw [hw.reverse_chain.2]
  exact ha

theorem acceptBlock_replays (hw : WellFormed C E s) (hs : Replays C E Offered s) (hb : Offered s.height b)
    (ha : Applied C E s b undo L) :
    Replays C E Offered (acceptBlock C E (s.setLedger L) b undo) := by
  obtain ⟨poawx, index, finalized, heq, -⟩ := acceptBlock_eq (C := C) (E := E) (s.setLedger L) b undo
  have hlen := hw.reverse_chain.2
  have hblock := hw.applied_reverse ha
  have hmined : Mined C E Offered (b :: s.chain.reverse) (s.issued + undo.subsidyCreated) :=
    .cons hs.rewinds.inv (by rwa [hlen]) hs.utxos hblock
  have hpush := hs.rewinds.push (hblock.undoFits hs.utxos) (Nat.add_sub_cancel s.issued undo.subsidyCreated) hmined
  rw [blockKey, hlen] at hpush
  rw [heq]
  refine ⟨?_, ?_⟩
  · simp only [pushBlock, setLedger, List.reverse_append, List.reverse_singleton, List.singleton_append]
    exact hblock.submap_replay hs.utxos
  · simp only [pushBlock, setLedger, blockHash, List.reverse_append, List.reverse_singleton, List.singleton_append]
    exact hpush

theorem tipUndo_reverse (hw : WellFormed C E s) (ht : tipUndo C E s = .ok (tip, undo)) :
    s.chain.reverse = tip :: s.chain.dropLast.reverse ∧
      blockKey C E s.chain.dropLast.reverse tip = tip.header.hashForHeight C E (s.height - 1) ∧
      s.undoLogs.lookup (blockKey C E s.chain.dropLast.reverse tip) = some undo := by
  obtain ⟨-, -, hundo⟩ := tipUndo_eq_ok.mp ht
  obtain ⟨hchain, -, hlen⟩ := hw.tip_reverse ht
  have hkey : blockKey C E s.chain.dropLast.reverse tip = tip.header.hashForHeight C E (s.height - 1) := by
    rw [blockKey, hlen]
  exact ⟨hchain, hkey, by rw [hkey]; exact hundo⟩

theorem popBlock_replays (hw : WellFormed C E s) (hs : Replays C E Offered s) (ht : tipUndo C E s = .ok (tip, undo)) :
    Replays C E Offered (popBlock C E s tip undo) := by
  obtain ⟨hchain, hkey, hundo⟩ := tipUndo_reverse hw ht
  have hrew := hs.rewinds
  rw [hchain] at hrew
  obtain ⟨hfits, hpop⟩ := hrew.pop hundo
  have hutxos := hs.utxos
  rw [hchain] at hutxos
  refine ⟨hfits.revert_submap hutxos, ?_⟩
  rw [hkey] at hpop
  exact hpop

theorem Effect.replays (hw : WellFormed C E s) (hs : Replays C E Offered s) (h : Effect C E Offered s s') :
    Replays C E Offered s' := by
  cases h with
  | refused hm =>
    obtain ⟨updates, hm⟩ := hm
    refine ⟨?_, hs.rewinds⟩
    have hu := hs.utxos
    rwa [← hm.utxos] at hu
  | accepted hb hv ha hi => exact acceptBlock_replays hw hs hb ha
  | popped ht => exact popBlock_replays hw hs ht
  | reindexed index anchors orphaned => exact ⟨hs.utxos, hs.rewinds⟩

theorem ReachableBy.replays (hs : ReachableBy C E Offered s) : Replays C E Offered s :=
  hs.invariant (fun _ _ _ => new_replays) fun _ _ => Effect.replays

end ChainState

end IriumConsensus
