import IriumConsensus.Calls
import IriumConsensus.FailedConnect
import IriumConsensus.SameCore
import IriumConsensus.UndoExact
import IriumConsensus.Watermark

namespace IriumConsensus

open Checks FinMaps Stateful Relation PoawxState

variable {C : Crypto} {E : NodeEnv} {A : Ambient}

variable {A₀ : Ambient} {params : ChainParams} {s₀ : ChainState}

/-- An earlier clock with the same candidate admissions. -/
structure Ambient.Before (A' A : Ambient) : Prop where
  now : A'.now ≤ A.now
  admitted : A'.admittedCandidateSet = A.admittedCandidateSet

namespace ChainState

def finalizesParent (C : Crypto) (E : NodeEnv) (s : ChainState) (b : Block) : Bool :=
  finalityCommitteeEnforced E s.height && (!forkChoiceHardeningActive E s.height ||
    genuineQuorum E (s.proposerRegistry.registerAll (registeredKeys C E b s.height) s.height) b s.height)

/-- A block that is connected and taken off again leaves no trace: its undo data is kept apart from that of
other blocks, no unspent output is overwritten, the PoAW-X records are reverted to what they were, and the
watermark is not raised, or only from the height to which the disconnect lowers it. -/
structure LeavesNoTrace (C : Crypto) (E : NodeEnv) (s : ChainState) (b : Block) : Prop where
  ownUndo : blockHash C E s b ∉ s.undoLogs
  keepsOutputs : KeepsOverwritten C s.height s.utxos b
  revertsPoawx : SameRules (revertBlock E (applyBlock C E s.toPoawxState b s.height) b s.height) s.toPoawxState
  keepsWatermark : finalizesParent C E s b → s.finalizedHeight = s.height - 2

def ruleRecords (p : PoawxState) :
    PersistentDominance × ProposerEligibilityRegistry × List ProposerRegistrationV1 × PersistentPenalty :=
  (p.dominance, p.proposerRegistry, p.proposerRegQueue, p.penalty)

/-- A check that a block leaves no trace, for records that are reverted to the very same ones. -/
def checkNoTrace (C : Crypto) (E : NodeEnv) (s : ChainState) (b : Block) : Bool :=
  decide (blockHash C E s b ∉ s.undoLogs ∧ KeepsOverwritten C s.height s.utxos b ∧
    ruleRecords (revertBlock E (applyBlock C E s.toPoawxState b s.height) b s.height) = ruleRecords s.toPoawxState ∧
    (finalizesParent C E s b → s.finalizedHeight = s.height - 2))

variable {s s' t : ChainState} {b : Block}

theorem leavesNoTrace_of_check (h : checkNoTrace C E s b) : LeavesNoTrace C E s b := by
  obtain ⟨hundo, hkeeps, hrecords, hmark⟩ := of_decide_eq_true h
  simp only [ruleRecords, Prod.mk.injEq] at hrecords
  exact ⟨hundo, hkeeps, ⟨hrecords.1 ▸ .refl _, hrecords.2.1, hrecords.2.2.1, hrecords.2.2.2⟩, hmark⟩

theorem SameCore.leavesNoTrace (h : SameCore s t) (hb : LeavesNoTrace C E s b) : LeavesNoTrace C E t b where
  ownUndo := by
    have hown := hb.ownUndo
    rwa [blockHash, h.height, h.undoLogs] at hown
  keepsOutputs := by
    have hkeeps := hb.keepsOutputs
    rwa [h.height, h.ledger] at hkeeps
  revertsPoawx := by
    have hrev := hb.revertsPoawx
    rw [h.height] at hrev
    exact ((h.poawx.symm.applyBlock b t.height).revertBlock b t.height).trans (hrev.trans h.poawx)
  keepsWatermark := by
    have hmark := hb.keepsWatermark
    unfold finalizesParent at hmark ⊢
    rwa [h.height, h.finalizedHeight, h.poawx.registry] at hmark

theorem disconnect_restores (hs : Reachable C E s) (hb : LeavesNoTrace C E s b)
    (h : connectBlock C E A b s = (.ok (), s')) :
    ∃ s'', disconnectTipBlock C E s' = (.ok b, s'') ∧ SameCore s'' s := by
  have hw := hs.wellFormed
  have hlow := hs.finalizedHeight_le
  obtain ⟨-, undo, L, hL, -, rfl⟩ := connectBlock_eq_ok.mp h
  have hrevert := ((applyTransactions_ok hL).revert_eq_iff hw.sameKeys).mpr hb.keepsOutputs
  refine ⟨_, disconnectTipBlock_eq_ok.mpr ⟨undo, tipUndo_acceptBlock hw, rfl⟩, ?_⟩
  have hpart : (popBlock C E (acceptBlock C E (s.setLedger L) b undo) b undo).ledgerPart = _ :=
    ledgerPart_popBlock_acceptBlock hw
  simp only [ledgerPart, LedgerPart.mk.injEq] at hpart
  obtain ⟨hledger, hissued, hwork, hchain, hheight, hbest⟩ := hpart
  obtain ⟨poawx, index, finalized, heq, -⟩ := acceptBlock_eq (C := C) (E := E) (s.setLedger L) b undo
  refine ⟨hledger.trans hrevert, ?_, ?_, hheight, hchain, hwork, hissued, hbest, ?_, ?_⟩
  · have hcore := (acceptBlock_sameCore (C := C) (E := E) (s.setLedger L) b undo).popBlock (C := C) (E := E) b undo
    obtain ⟨finalized, hfinal, -⟩ := advanceFinality_eq (E := E) (pushBlock C E (s.setLedger L) b undo) s.height
    refine hcore.poawx.trans ?_
    rw [show (s.setLedger L).height = s.height from rfl, hfinal]
    exact hb.revertsPoawx
  · rw [heq]
    rfl
  · rw [heq]
    simp only [popBlock, pushBlock, setLedger, blockHash, Nat.add_sub_cancel]
    rw [erase_insert]
    exact erase_of_notMem hb.ownUndo
  · obtain ⟨-, -, hmark⟩ := acceptBlock_watermark (C := C) (E := E) (s.setLedger L) b undo
    have hlen : (acceptBlock C E (s.setLedger L) b undo).chain.dropLast = s.chain := by
      rw [heq]
      exact List.dropLast_concat
    have hkeeps := hb.keepsWatermark
    have hh := hw.height
    simp only [popBlock, hlen, hmark]
    change min (if finalizesParent C E s b then max s.finalizedHeight (s.height - 1) else s.finalizedHeight)
      (s.chain.length - 1 - 1) = s.finalizedHeight
    split_ifs with hfin
    · have := hkeeps hfin
      omega
    · omega

/-- Blocks, newest first, that were connected one after the other, and each leaves no trace. -/
inductive Climbs (C : Crypto) (E : NodeEnv) (A : Ambient) (s : ChainState) : List Block → ChainState → Prop
  | refl : Climbs C E A s [] s
  | step {bs : List Block} {t t' : ChainState} {b : Block} (h : Climbs C E A s bs t) (hb : LeavesNoTrace C E t b)
      (hc : connectBlock C E A b t = (.ok (), t')) : Climbs C E A s (b :: bs) t'

section

variable {bs : List Block} {u : ChainState}

theorem Climbs.reachable (hs : Reachable C E s) (h : Climbs C E A s bs t) : Reachable C E t := by
  induction h with
  | refl => exact hs
  | @step bs t t' b h hb hc ih =>
    have hstep := ih.step (.connect t A b trivial)
    rwa [hc] at hstep

theorem connectBlock_height (hc : connectBlock C E A b s = (.ok (), s')) : s'.height = s.height + 1 := by
  obtain ⟨-, undo, L, -, -, rfl⟩ := connectBlock_eq_ok.mp hc
  exact (acceptBlock_grows (s.setLedger L) b undo).2.1

theorem Climbs.height (h : Climbs C E A s bs t) : t.height = s.height + bs.length := by
  induction h with
  | refl => rfl
  | step h hb hc ih => rw [connectBlock_height hc, ih, List.length_cons, Nat.add_assoc]

theorem Climbs.split {above below : List Block} (h : Climbs C E A s (above ++ below) t) :
    ∃ m, Climbs C E A s below m ∧ Climbs C E A m above t := by
  induction above generalizing t with
  | nil => exact ⟨t, h, .refl⟩
  | cons b above ih =>
    cases h with
    | step h hb hc =>
      obtain ⟨m, hbelow, habove⟩ := ih h
      exact ⟨m, hbelow, .step habove hb hc⟩

theorem Climbs.pop (hs : Reachable C E s) (h : Climbs C E A s (b :: bs) t) (hu : SameCore u t) :
    ∃ t' u', Climbs C E A s bs t' ∧ disconnectTipBlock C E u = (.ok b, u') ∧ SameCore u' t' := by
  cases h with
  | @step _ t' _ _ h hb hc =>
    obtain ⟨t'', hd, hback⟩ := disconnect_restores (h.reachable hs) hb hc
    obtain ⟨hfst, hsnd⟩ := hu.disconnectTipBlock (C := C) (E := E)
    rw [hd] at hfst hsnd
    exact ⟨t', (ChainState.disconnectTipBlock C E u).2, h, Prod.ext hfst rfl, hsnd.trans hback⟩

theorem Climbs.disconnectTips (hs : Reachable C E s) (h : Climbs C E A s bs t) (hu : SameCore u t) :
    SameCore (disconnectTips C E bs.length u).2 s := by
  induction bs generalizing t u with
  | nil =>
    cases h
    exact hu
  | cons b bs ih =>
    obtain ⟨t', u', h', hd, hu'⟩ := h.pop hs hu
    have hrest := ih h' hu'
    simp only [List.length_cons, ChainState.disconnectTips, bind_apply, attempt_apply, hd]
    exact hrest

theorem Climbs.disconnectTo (hs : Reachable C E s) (h : Climbs C E A s bs t) (hu : SameCore u t) {fuel : Nat}
    (hfuel : bs.length ≤ fuel) :
    ∃ u', disconnectTo C E s.tipHeight fuel u = (.ok bs, u') ∧ SameCore u' s := by
  induction bs generalizing t u fuel with
  | nil =>
    have hle : u.tipHeight ≤ s.tipHeight := by
      cases h
      rw [tipHeight, hu.height, tipHeight]
    cases h
    refine ⟨u, ?_, hu⟩
    cases fuel with
    | zero => rfl
    | succ fuel => rw [ChainState.disconnectTo, read_bind, if_pos hle, pure_apply]
  | cons b bs ih =>
    obtain ⟨fuel, rfl⟩ : ∃ n, fuel = n + 1 := ⟨fuel - 1, by rw [List.length_cons] at hfuel; omega⟩
    have hlt : ¬u.tipHeight ≤ s.tipHeight := by
      have hpos := List.length_pos_of_ne_nil hs.wellFormed.nonempty
      have hheight := hs.wellFormed.height
      have htop := h.height
      rw [tipHeight, hu.height, tipHeight, htop, List.length_cons]
      omega
    obtain ⟨t', u', h', hd, hu'⟩ := h.pop hs hu
    obtain ⟨u'', hrest, hback⟩ := ih h' hu' (Nat.le_of_succ_le_succ hfuel)
    refine ⟨u'', ?_, hback⟩
    rw [ChainState.disconnectTo, read_bind, if_neg hlt]
    simp only [bind_apply, hd, hrest, pure_apply]

theorem disconnectTips_eq (n : Nat) (u : ChainState) :
    ChainState.disconnectTips C E n u = (.ok (), (ChainState.disconnectTips C E n u).2) := by
  induction n generalizing u with
  | zero => rfl
  | succ n ih =>
    rw [ChainState.disconnectTips, bind_apply, attempt_apply]
    exact ih _

theorem reconnect_eq (bs : List Block) (u : ChainState) :
    reconnect C E A bs u = (.ok (), (reconnect C E A bs u).2) := by
  induction bs generalizing u with
  | nil => rfl
  | cons b bs ih =>
    rw [reconnect, bind_apply, attempt_apply]
    exact ih _

theorem reconnect_append (xs ys : List Block) (u : ChainState) :
    (reconnect C E A (xs ++ ys) u).2 = (reconnect C E A ys (reconnect C E A xs u).2).2 := by
  induction xs generalizing u with
  | nil => rfl
  | cons x xs ih =>
    simp only [List.cons_append, reconnect, bind_apply, attempt_apply]
    exact ih _

theorem Climbs.reconnect (h : Climbs C E A s bs t) (hu : SameCore u s) :
    SameCore (reconnect C E A bs.reverse u).2 t := by
  induction h with
  | refl => exact hu
  | @step bs t t' b h hb hc ih =>
    rw [List.reverse_cons, reconnect_append]
    simp only [ChainState.reconnect, bind_apply, attempt_apply, pure_apply]
    have hsnd := (ih.connectBlock (C := C) (E := E) (A := A) b).2
    rwa [hc] at hsnd

end

/-- The block is refused before a header batch of it takes effect, or leaves no trace. -/
structure Tidy (C : Crypto) (E : NodeEnv) (A : Ambient) (s : ChainState) (b : Block) : Prop where
  accepted : (connectBlock C E A b s).1 = .ok () → LeavesNoTrace C E s b
  refused : ¬ReachesEffectiveBatch C E A s b

def TidyBranch (C : Crypto) (E : NodeEnv) (A : Ambient) : List Block → ChainState → Prop
  | [], _ => True
  | b :: rest, s => Tidy C E A s b ∧
      ((connectBlock C E A b s).1 = .ok () → TidyBranch C E A rest (connectBlock C E A b s).2)

theorem connectBranch_failed {old done branch : List Block} {w u u' : ChainState} {e : String} (hs : Reachable C E s)
    (hold : Climbs C E A s old t) (hdone : Climbs C E A s done w) (hu : SameCore u w)
    (htidy : TidyBranch C E A branch u) (h : connectBranch C E A old branch done.length u = (.error e, u')) :
    SameCore u' t := by
  induction branch generalizing done w u with
  | nil => cases h
  | cons b rest ih =>
    have hw := (hdone.reachable hs).wellFormed
    rw [connectBranch, bind_apply, attempt_apply] at h
    dsimp only at h
    rcases hc : connectBlock C E A b u with ⟨e' | _, v⟩
    · rw [hc] at h
      have hv : v = u := refused_unchanged (by rw [hu.issued]; exact hw.issued) hc htidy.1.refused
      subst hv
      dsimp only at h
      rw [bind_apply, disconnectTips_eq] at h
      dsimp only at h
      rw [bind_apply, reconnect_eq] at h
      cases h
      exact hold.reconnect (hdone.disconnectTips hs hu)
    · rw [hc] at h
      have hok : (connectBlock C E A b u).1 = .ok () := by rw [hc]
      have hb := hu.leavesNoTrace (htidy.1.accepted hok)
      obtain ⟨hfst, hsnd⟩ := hu.connectBlock (C := C) (E := E) (A := A) b
      have hnext := htidy.2 hok
      rw [hc] at hfst hsnd hnext
      have hw' : connectBlock C E A b w = (.ok (), (connectBlock C E A b w).2) := Prod.ext hfst.symm rfl
      exact ih (.step hdone hb hw') hsnd hnext h

theorem connectBlock_before {A' : Ambient} (hA : A'.Before A) (h : connectBlock C E A' b s = (.ok (), s')) :
    connectBlock C E A b s = (.ok (), s') := by
  rw [connectBlock_eq_ok] at h ⊢
  refine ⟨?_, h.2⟩
  have hv := h.1
  have hrules : validatePoawxBlock C E A s b = validatePoawxBlock C E A' s b := by
    have hext : ∀ height seed, checkExtCandidates C E s A height seed = checkExtCandidates C E s A' height seed := by
      intro height seed
      funext p
      simp only [checkExtCandidates, checkAdmitted, hA.admitted]
    simp only [validatePoawxBlock, validateBlockCandidateSets, hext]
  simp only [validateBlock, validateBlockHeader, checkTime, bind_eq_ok, exists_unit, failIf_eq_ok, hrules] at hv ⊢
  have hnow := hA.now
  refine ⟨⟨hv.1.1, ⟨?_, hv.1.2.1.2⟩, hv.1.2.2⟩, hv.2⟩
  have htime := hv.1.2.1.1
  omega

/-- The steps of a node up to the time of `A` that offer it tidy blocks only. -/
inductive TidyStep (C : Crypto) (E : NodeEnv) (A : Ambient) : ChainState → ChainState → Prop
  | connect (s : ChainState) {A' : Ambient} {b : Block} (hA : A'.Before A) (hb : Tidy C E A' s b) :
      TidyStep C E A s (connectBlock C E A' b s).2
  | disconnect (s : ChainState) : TidyStep C E A s (disconnectTipBlock C E s).2
  | reindex (s : ChainState) (index : BlockIndex) (anchors : Option (List AnchorHeader)) (orphaned : List Block) :
      TidyStep C E A s { s with toBlockIndex := index, anchors := anchors, reorgOrphanedBlocks := orphaned }

theorem TidyStep.addToIndex (s : ChainState) (b : Block) (p : Placement) :
    TidyStep C E A s (ChainState.addToIndex s b p) := .reindex s _ s.anchors s.reorgOrphanedBlocks

theorem new_height (hnew : new C E A₀ params = some s₀) :
    s₀.height = 1 := by
  obtain ⟨undo, L, -, rfl⟩ := new_eq_some hnew
  rfl

theorem new_not_disconnected
    (hnew : new C E A₀ params = some s₀) (h : SameCore s s₀) : (disconnectTipBlock C E s).2 = s := by
  rcases hd : disconnectTipBlock C E s with ⟨e | tip, s'⟩
  · exact disconnectTipBlock_error hd
  · obtain ⟨undo, ht, -⟩ := disconnectTipBlock_eq_ok.mp hd
    have hlen := (tipUndo_eq_ok.mp ht).2.1
    obtain ⟨undo₀, L, -, rfl⟩ := new_eq_some hnew
    rw [h.chain] at hlen
    exact absurd hlen (lt_irrefl 1)

/-- After any such steps the state is the one that its own blocks lead to from the start. -/
theorem climbs_of_tidy (hnew : new C E A₀ params = some s₀)
    (hrun : ReflTransGen (TidyStep C E A) s₀ s) : ∃ bs t, Climbs C E A s₀ bs t ∧ SameCore s t := by
  have hs₀ : Reachable C E s₀ := ⟨A₀, params, s₀, trivial, hnew, .refl⟩
  induction hrun with
  | refl => exact ⟨[], s₀, .refl, .refl _⟩
  | @tail s s' _ hstep ih =>
    obtain ⟨bs, t, hclimb, hsame⟩ := ih
    cases hstep with
    | @connect A' b hA hb =>
      rcases hc : connectBlock C E A' b s with ⟨e | _, s'⟩
      · have hi : s.issued ≤ maxMoney := by
          rw [hsame.issued]
          exact (hclimb.reachable hs₀).wellFormed.issued
        rw [refused_unchanged hi hc hb.refused]
        exact ⟨bs, t, hclimb, hsame⟩
      · have hok := connectBlock_before hA hc
        obtain ⟨hfst, hsnd⟩ := hsame.connectBlock (C := C) (E := E) (A := A) b
        rw [hok] at hfst hsnd
        have ht : connectBlock C E A b t = (.ok (), (connectBlock C E A b t).2) := Prod.ext hfst.symm rfl
        exact ⟨b :: bs, _, .step hclimb (hsame.leavesNoTrace (hb.accepted (by rw [hc]))) ht, hsnd⟩
    | disconnect =>
      cases bs with
      | nil =>
        cases hclimb
        rw [new_not_disconnected hnew hsame]
        exact ⟨[], _, .refl, hsame⟩
      | cons b bs =>
        obtain ⟨t', s', hclimb', hd, hsame'⟩ := hclimb.pop hs₀ hsame
        rw [hd]
        exact ⟨bs, t', hclimb', hsame'⟩
    | reindex index anchors orphaned => exact ⟨bs, t, hclimb, (SameCore.reindex _ _ _ _).trans hsame⟩

/-- What a node shows of its state besides caches and signals. -/
structure Visible where
  chain : List Block
  ledger : Ledger
  issued : Nat
  totalWork : Nat
  proposerRegistry : ProposerEligibilityRegistry
  proposerRegQueue : List ProposerRegistrationV1
  penalty : PersistentPenalty
  finalizedHeight : Nat
  deriving DecidableEq

def visible (s : ChainState) : Visible :=
  ⟨s.chain, s.toLedger, s.issued, s.totalWork, s.proposerRegistry, s.proposerRegQueue, s.penalty, s.finalizedHeight⟩

theorem SameCore.visible (h : SameCore s t) : s.visible = t.visible := by
  simp only [ChainState.visible, h.chain, h.ledger, h.issued, h.totalWork, h.poawx.registry, h.poawx.queue,
    h.poawx.penalty, h.finalizedHeight]

theorem switchBranch_failed {base old branch : List Block} {m : ChainState} {e : String} (hs₀ : Reachable C E s₀)
    (hbase : Climbs C E A s₀ base m) (hold : Climbs C E A m old t) (hsame : SameCore s t)
    (htidy : TidyBranch C E A branch (disconnectTo C E m.tipHeight s.chain.length s).2)
    (h : switchBranch C E A m.tipHeight branch s = (.error e, s')) : SameCore s' s := by
  have hm := hbase.reachable hs₀
  have hfuel : old.length ≤ s.chain.length := by
    rw [hsame.chain, ← (hold.reachable hm).wellFormed.height, hold.height]
    omega
  obtain ⟨u, hdown, hu⟩ := hold.disconnectTo hm hsame hfuel
  rw [hdown] at htidy
  rw [switchBranch, read_bind, bind_apply, hdown] at h
  dsimp only at h
  rcases bind_error_iff.mp h with h | ⟨_, _, -, h⟩
  · exact (connectBranch_failed hm hold .refl hu htidy h).trans hsame.symm
  · cases h

/-- A reorg that fails is invisible, if the node was offered tidy blocks before and the blocks of the new
branch are tidy. -/
theorem failed_reorg_invisible {A₀ : Ambient} {params : ChainParams} {s₀ : ChainState} {newTip : Hash32} {e : String}
    (hnew : new C E A₀ params = some s₀) (hrun : ReflTransGen (TidyStep C E A) s₀ s)
    (hbranch : ∀ path, findReorgPath C E s newTip = .ok path →
      TidyBranch C E A path.2 (disconnectTo C E path.1 s.chain.length s).2)
    (h : reorgToTip C E A newTip s = (.error e, s')) : s'.visible = s.visible := by
  have hs₀ : Reachable C E s₀ := ⟨A₀, params, s₀, trivial, hnew, .refl⟩
  obtain ⟨bs, t, hclimb, hsame⟩ := climbs_of_tidy hnew hrun
  rw [reorgToTip, read_bind, lift_bind_error_iff] at h
  rcases h with ⟨-, rfl⟩ | ⟨path, hpath, h⟩
  · rfl
  split at h
  next => cases h
  next hlt =>
    rcases lift_bind_error_iff.mp h with ⟨-, rfl⟩ | ⟨_, -, h⟩
    · rfl
    -- the blocks of the main chain above the ancestor, and those up to it
    have hheight : s.height = 1 + bs.length := by rw [hsame.height, hclimb.height, new_height hnew]
    have hbs := List.take_append_drop (bs.length - path.1) bs
    rw [← hbs] at hclimb
    obtain ⟨m, hbase, hold⟩ := hclimb.split
    have htip : m.tipHeight = path.1 := by
      rw [tipHeight] at hlt
      rw [tipHeight, hbase.height, new_height hnew, List.length_drop]
      omega
    have htidy := hbranch path hpath
    rw [← htip] at htidy h
    exact (switchBranch_failed hs₀ hbase hold hsame htidy h).visible

def besidePlace (b : Block) (s : ChainState) : Placement := place shaCrypto relayNode s b

/-- The switch to a block that asks for too much fails, and nothing has happened. -/
theorem greedy_branch_invisible :
    ∃ s₀ s s' e, new shaCrypto relayNode quietAmbient relayParams = some s₀ ∧
      ReflTransGen (TidyStep shaCrypto relayNode quietAmbient) s₀ s ∧ s.chain = [lockedGenesis, firstWithCoinbase] ∧
      reorgToTip shaCrypto relayNode quietAmbient (besidePlace greedyBlock s).hash s = (.error e, s') ∧
      s'.visible = s.visible := by
  let error := "reorg connect failed: Coinbase transaction exceeds allowed reward"
  obtain ⟨s₀, hnew, htrace, hbatch, hchain, hpath, herr, hrefused, hbatch'⟩ :=
    exists_of_any (new shaCrypto relayNode quietAmbient relayParams)
    (fun s₀ =>
      let r := connectBlock shaCrypto relayNode quietAmbient firstWithCoinbase s₀
      let s := addToIndex r.2 greedyBlock (besidePlace greedyBlock r.2)
      let u := (disconnectTo shaCrypto relayNode 0 s.chain.length s).2
      -- the first block leaves no trace
      checkNoTrace shaCrypto relayNode s₀ firstWithCoinbase ∧
        ¬ReachesEffectiveBatch shaCrypto relayNode quietAmbient s₀ firstWithCoinbase ∧
        -- the other block is refused in its place
        s.chain = [lockedGenesis, firstWithCoinbase] ∧
        findReorgPath shaCrypto relayNode s (besidePlace greedyBlock s).hash = .ok (0, [greedyBlock]) ∧
        (reorgToTip shaCrypto relayNode quietAmbient (besidePlace greedyBlock s).hash s).1 = .error error ∧
        (connectBlock shaCrypto relayNode quietAmbient greedyBlock u).1 ≠ .ok () ∧
        ¬ReachesEffectiveBatch shaCrypto relayNode quietAmbient u greedyBlock) (by decide +kernel)
  have htidy : Tidy shaCrypto relayNode quietAmbient s₀ firstWithCoinbase :=
    ⟨fun _ => leavesNoTrace_of_check htrace, hbatch⟩
  have hrun := (ReflTransGen.single (TidyStep.connect s₀ ⟨le_rfl, rfl⟩ htidy)).tail
    (.addToIndex _ greedyBlock
      (besidePlace greedyBlock (connectBlock shaCrypto relayNode quietAmbient firstWithCoinbase s₀).2))
  refine ⟨s₀, _, _, error, hnew, hrun, hchain, Prod.ext herr rfl, ?_⟩
  refine failed_reorg_invisible hnew hrun (fun path hp => ?_) (Prod.ext herr rfl)
  rw [hpath, Except.ok.injEq] at hp
  subst hp
  exact ⟨⟨fun hok => absurd hok hrefused, hbatch'⟩, fun hok => absurd hok hrefused⟩

/-- The switch to a block that asks for too much after a header batch fails, and the node has learnt a
Bitcoin header. -/
theorem failed_reorg_keeps_batch :
    ∃ s s', Reachable shaCrypto relayNode s ∧ (besidePlace greedyBlockWithBatch s).hash ∈ s.blockStore ∧
      reorgToTip shaCrypto relayNode quietAmbient (besidePlace greedyBlockWithBatch s).hash s =
        (.error "reorg connect failed: Coinbase transaction exceeds allowed reward", s') ∧
      bitcoinHeaderHash ∉ s.btc.relay.headers ∧ bitcoinHeaderHash ∈ s'.btc.relay.headers := by
  obtain ⟨s₀, hnew, hstored, hr, hbefore, hafter⟩ := exists_of_any (new shaCrypto relayNode quietAmbient relayParams)
    (fun s₀ =>
      let s := afterCalls shaCrypto relayNode quietAmbient 2 [firstWithCoinbase, greedyBlockWithBatch] s₀
      let r := reorgToTip shaCrypto relayNode quietAmbient (besidePlace greedyBlockWithBatch s).hash s
      (besidePlace greedyBlockWithBatch s).hash ∈ s.blockStore ∧
        r.1 = .error "reorg connect failed: Coinbase transaction exceeds allowed reward" ∧
        bitcoinHeaderHash ∉ s.btc.relay.headers ∧ bitcoinHeaderHash ∈ r.2.btc.relay.headers) (by decide +kernel)
  have hs₀ : Reachable shaCrypto relayNode s₀ := ⟨quietAmbient, relayParams, s₀, trivial, hnew, .refl⟩
  exact ⟨_, _, reachable_of_calls hs₀ (afterCalls_run 2 _ s₀), hstored, Prod.ext hr rfl, hbefore, hafter⟩

end ChainState

end IriumConsensus
