import IriumConsensus.ProcessBlock

namespace IriumConsensus

open Checks Stateful Relation

variable (C : Crypto) (E : NodeEnv)

namespace ChainState

/-- The elementary changes of a node's state: a block with the property `Offered` is offered to the
tip, whether it is accepted or not, the tip is taken off, or the caches that are no part of the
ledger change in any way. -/
inductive Step (Offered : Nat → Block → Prop) : ChainState → ChainState → Prop
  | connect (s : ChainState) (A : Ambient) (b : Block) (hb : Offered s.height b) :
      Step Offered s (connectBlock C E A b s).2
  | disconnect (s : ChainState) : Step Offered s (disconnectTipBlock C E s).2
  | reindex (s : ChainState) (index : BlockIndex) (anchors : Option (List AnchorHeader))
      (orphaned : List Block) :
      Step Offered s { s with toBlockIndex := index, anchors := anchors, reorgOrphanedBlocks := orphaned }

def AnyBlock (_ : Nat) (_ : Block) : Prop := True

/-- The states of a node from its start on, when the blocks it is given have a property. -/
def ReachableBy (Offered : Nat → Block → Prop) (s : ChainState) : Prop :=
  ∃ A params s₀, Offered 0 params.genesisBlock ∧ new C E A params = some s₀ ∧
    ReflTransGen (Step C E Offered) s₀ s

def Reachable (s : ChainState) : Prop := ReachableBy C E AnyBlock s

variable {C E} {Offered : Nat → Block → Prop} {s : ChainState}

theorem ReachableBy.step {s' : ChainState} (hs : ReachableBy C E Offered s) (h : Step C E Offered s s') :
    ReachableBy C E Offered s' := by
  obtain ⟨A, params, s₀, hg, hnew, hrun⟩ := hs
  exact ⟨A, params, s₀, hg, hnew, hrun.tail h⟩

theorem ReachableBy.induct {P : ChainState → Prop}
    (hnew : ∀ A params s, Offered 0 params.genesisBlock → new C E A params = some s → P s)
    (hstep : ∀ s s', P s → Step C E Offered s s' → P s') (hs : ReachableBy C E Offered s) :
    P s := by
  obtain ⟨A, params, s₀, hg, h0, hrun⟩ := hs
  induction hrun with
  | refl => exact hnew A params s₀ hg h0
  | tail _ h ih => exact hstep _ _ ih h

def runOf (C : Crypto) (E : NodeEnv) (A : Ambient) (params : ChainParams) : List Block → Option ChainState
  | [] => new C E A params
  | b :: below =>
    match (runOf C E A params below).map (connectBlock C E A b) with
    | some (.ok _, s) => some s
    | _ => none

theorem runOf_reachableBy {A : Ambient} {params : ChainParams} {bs : List Block}
    (hoff : ∀ h, ∀ b ∈ params.genesisBlock :: bs, Offered h b) (h : runOf C E A params bs = some s) :
    ReachableBy C E Offered s := by
  induction bs generalizing s with
  | nil => exact ⟨A, params, s, hoff 0 _ (by simp), h, .refl⟩
  | cons b below ih =>
    unfold runOf at h
    split at h
    next _ s' hs =>
      obtain ⟨t, ht, hc⟩ := Option.map_eq_some_iff.mp hs
      have hbelow : ∀ h, ∀ b' ∈ params.genesisBlock :: below, Offered h b' := by
        intro h b' hb'
        refine hoff h b' ?_
        rcases List.mem_cons.mp hb' with rfl | hb' <;> simp [*]
      have hstep := (ih hbelow ht).step (.connect t A b (hoff t.height b (by simp)))
      rw [hc] at hstep
      exact Option.some.inj h ▸ hstep
    next => simp at h

theorem exists_reachable_of_runOf (A : Ambient) (params : ChainParams) (bs : List Block) (P : ChainState → Prop)
    [DecidablePred P] (h : (runOf C E A params bs).any (fun s => decide (P s))) :
    ∃ s, Reachable C E s ∧ P s := by
  obtain ⟨s, hs, hp⟩ := exists_of_any _ P h
  exact ⟨s, runOf_reachableBy (fun _ _ _ => trivial) hs, hp⟩

section

/-- A relation between states that covers all that a switch of branches consists of. -/
structure Moves (C : Crypto) (E : NodeEnv) (R : ChainState → ChainState → Prop) : Prop where
  connect : ∀ A b, Steps R (connectBlock C E A b)
  disconnect : Steps R (disconnectTipBlock C E)
  orphaned : ∀ s orphaned, R s { s with reorgOrphanedBlocks := orphaned }

variable {R : ChainState → ChainState → Prop} [IsPreorder ChainState R] (h : Moves C E R)

include h

theorem Moves.disconnectTo (ancestorHeight fuel : Nat) : Steps R (disconnectTo C E ancestorHeight fuel) := by
  induction fuel with
  | zero => exact .pure []
  | succ fuel ih =>
    refine .bind .read fun s => ?_
    split
    next => exact .pure []
    next => exact .bind h.disconnect fun b => .bind ih fun rest => .pure _

theorem Moves.disconnectTips (n : Nat) : Steps R (disconnectTips C E n) := by
  induction n with
  | zero => exact .pure ()
  | succ n ih => exact .bind h.disconnect.attempt fun _ => ih

variable (A : Ambient)

theorem Moves.reconnect (bs : List Block) : Steps R (reconnect C E A bs) := by
  induction bs with
  | nil => exact .pure ()
  | cons b bs ih => exact .bind (h.connect A b).attempt fun _ => ih

theorem Moves.connectBranch (disconnected branch : List Block) (connected : Nat) :
    Steps R (connectBranch C E A disconnected branch connected) := by
  induction branch generalizing connected with
  | nil => exact .pure ()
  | cons b rest ih =>
    refine .bind (h.connect A b).attempt fun result => ?_
    cases result with
    | ok _ => exact ih (connected + 1)
    | error e =>
      exact .bind (h.disconnectTips connected) fun _ => .bind (h.reconnect A disconnected.reverse) fun _ => .fail _

theorem Moves.switchBranch (ancestorHeight : Nat) (branch : List Block) :
    Steps R (switchBranch C E A ancestorHeight branch) :=
  .bind .read fun _ => .bind (h.disconnectTo ancestorHeight _) fun disconnected =>
    .bind (h.connectBranch A disconnected branch 0) fun _ => .update fun t => h.orphaned t _

theorem Moves.reorgToTip (newTip : Hash32) : Steps R (reorgToTip C E A newTip) := by
  refine .bind .read fun s => .bind (.lift _) fun path => ?_
  split
  next => exact .pure ()
  next => exact .bind (.lift _) fun _ => h.switchBranch A path.1 path.2

theorem Moves.adoptBlock (b : Block) (p : Placement) : Steps R (adoptBlock C E A b p) := by
  refine .bind .read fun s => ?_
  split
  next => exact .bind (h.connect A b) fun _ => .pure true
  next =>
    refine .bind (.lift _) fun better => ?_
    cases better with
    | true => exact .bind (h.reorgToTip A p.hash) fun _ => .pure true
    | false => exact .pure false

omit h in
theorem Moves.indexAndAdopt {P : ChainState → Prop} {b : Block} {p : Placement} {s : ChainState}
    (h : Moves C E (Keeps P)) (hremove : ∀ t, P t → P (removeFromIndex t p.hash)) (hadd : P (addToIndex s b p)) :
    P (indexAndAdopt C E A b p s).2 := by
  have hadopt := h.adoptBlock A b p _ hadd
  rw [ChainState.indexAndAdopt, update_bind, bind_apply, attempt_apply]
  rcases hr : ChainState.adoptBlock C E A b p (addToIndex s b p) with ⟨e | advanced, s'⟩
  · rw [hr] at hadopt
    exact hremove s' hadopt
  · rw [hr] at hadopt
    exact hadopt

end

section

variable (C : Crypto) (E : NodeEnv)

/-- An invariant of all that a switch of branches consists of, when the blocks that are connected have a property. -/
structure MovesWithin (Q : Block → Prop) (P : ChainState → Prop) : Prop where
  connect : ∀ A b, Q b → Triple P (connectBlock C E A b) (fun _ => P) P
  disconnect : Triple P (disconnectTipBlock C E) (fun tip s => P s ∧ Q tip) P
  orphaned : ∀ s orphaned, P s → P { s with reorgOrphanedBlocks := orphaned }

variable {C E} {Q : Block → Prop} {P : ChainState → Prop} (h : MovesWithin C E Q P) (A : Ambient)
  {disconnected : List Block}

include h

theorem MovesWithin.disconnectTo (ancestorHeight fuel : Nat) :
    Triple P (disconnectTo C E ancestorHeight fuel) (fun bs s => P s ∧ ∀ b ∈ bs, Q b) P := by
  induction fuel with
  | zero => exact .pure fun _ hs => ⟨hs, by simp⟩
  | succ fuel ih =>
    refine .read_bind fun s hs => ?_
    split
    next => exact .pure fun _ ht => ⟨ht ▸ hs, by simp⟩
    next =>
      refine .bind (h.disconnect.weaken_pre fun _ ht => ht ▸ hs) fun b => .assume fun hb => ?_
      exact .bind ih fun rest => .pure fun t ht => ⟨ht.1, List.forall_mem_cons.mpr ⟨hb, ht.2⟩⟩

theorem MovesWithin.disconnectTips (n : Nat) : Triple P (disconnectTips C E n) (fun _ => P) P := by
  induction n with
  | zero => exact .pure fun _ hs => hs
  | succ n ih => exact .attempt_bind h.disconnect (fun _ => ih.weaken_pre fun _ hs => hs.1) fun _ => ih

theorem MovesWithin.reconnect {bs : List Block} (hbs : ∀ b ∈ bs, Q b) :
    Triple P (reconnect C E A bs) (fun _ => P) P := by
  induction bs with
  | nil => exact .pure fun _ hs => hs
  | cons b bs ih =>
    obtain ⟨hb, hrest⟩ := List.forall_mem_cons.mp hbs
    exact .attempt_bind (h.connect A b hb) (fun _ => ih hrest) fun _ => ih hrest

/-- A branch that does not connect is given up for the one before it. -/
theorem MovesWithin.restore (hdis : ∀ b ∈ disconnected, Q b) (connected : Nat) (e : String)
    (R : Unit → ChainState → Prop) :
    Triple P (do
        ChainState.disconnectTips C E connected
        ChainState.reconnect C E A disconnected.reverse
        fail e : Run ChainState String Unit) R P := by
  have hrev : ∀ b ∈ disconnected.reverse, Q b := fun b hb => hdis b (List.mem_reverse.mp hb)
  exact .bind (h.disconnectTips connected) fun _ => .bind (h.reconnect A hrev) fun _ => .fail (fun _ hs => hs) _

theorem MovesWithin.connectBranch {branch : List Block} (hdis : ∀ b ∈ disconnected, Q b) (hbranch : ∀ b ∈ branch, Q b)
    (connected : Nat) :
    Triple P (connectBranch C E A disconnected branch connected) (fun _ => P) P := by
  induction branch generalizing connected with
  | nil => exact .pure fun _ hs => hs
  | cons b rest ih =>
    obtain ⟨hb, hrest⟩ := List.forall_mem_cons.mp hbranch
    exact .attempt_bind (h.connect A b hb) (fun _ => ih hrest (connected + 1)) fun e => h.restore A hdis connected _ _

variable (hpath : ∀ s hash path, P s → findReorgPath C E s hash = .ok path → ∀ b ∈ path.2, Q b) {b : Block}

include hpath

theorem MovesWithin.reorgToTip (newTip : Hash32) : Triple P (reorgToTip C E A newTip) (fun _ => P) P := by
  refine .read_bind fun s hs => .lift_bind (fun _ ht => ht ▸ hs) fun path hwalk => ?_
  split
  next => exact .pure fun _ ht => ht ▸ hs
  next =>
    refine .lift_bind (fun _ ht => ht ▸ hs) fun _ _ => .read_bind fun t ht => ?_
    obtain rfl := ht
    refine .bind ((h.disconnectTo path.1 _).weaken_pre fun _ ht => ht ▸ hs) fun disconnected =>
      .assume fun hdis => .bind (h.connectBranch A hdis (hpath t newTip path hs hwalk) 0) fun _ => ?_
    exact fun t ht => h.orphaned t _ ht

theorem MovesWithin.adoptBlock (hb : Q b) (p : Placement) :
    Triple P (adoptBlock C E A b p) (fun _ => P) P := by
  refine .read_bind fun s hs => ?_
  split
  next => exact .bind ((h.connect A b hb).weaken_pre fun _ ht => ht ▸ hs) fun _ => .pure fun _ ht => ht
  next =>
    refine .lift_bind (fun _ ht => ht ▸ hs) fun better _ => ?_
    cases better with
    | true => exact .bind ((h.reorgToTip A hpath p.hash).weaken_pre fun _ ht => ht ▸ hs) fun _ => .pure fun _ ht => ht
    | false => exact .pure fun _ ht => ht ▸ hs

theorem MovesWithin.indexAndAdopt (hb : Q b) {p : Placement} {s : ChainState} (hadd : P (addToIndex s b p))
    (hremove : ∀ t, P t → P (removeFromIndex t p.hash)) : P (indexAndAdopt C E A b p s).2 := by
  have hadopt := h.adoptBlock A hpath hb p
  have htriple : Triple (· = s) (ChainState.indexAndAdopt C E A b p) (fun _ => P) P := by
    refine .update_bind (M := P) (fun t ht => ht ▸ hadd) (.attempt_bind hadopt (fun _ => .pure fun _ ht => ht) fun e => ?_)
    exact .update_bind hremove (.fail (fun _ ht => ht) e)
  exact htriple.final rfl

end

section

variable (A : Ambient)

theorem pruneCaches_step (s : ChainState) : Step C E AnyBlock s (pruneCaches C E s) := by
  obtain ⟨index, h⟩ := pruneCaches_eq C E s
  rw [h]
  exact .reindex s index s.anchors s.reorgOrphanedBlocks

theorem moves_steps : Moves C E (ReflTransGen (Step C E AnyBlock)) where
  connect A b := fun s => .single (.connect s A b trivial)
  disconnect := fun s => .single (.disconnect s)
  orphaned s orphaned := .single (.reindex s s.toBlockIndex s.anchors orphaned)

theorem indexAndAdopt_steps (b : Block) (p : Placement) :
    Steps (ReflTransGen (Step C E AnyBlock)) (indexAndAdopt C E A b p) := by
  refine .bind (.update fun s => .single (.reindex s _ s.anchors s.reorgOrphanedBlocks)) fun _ =>
    .bind (moves_steps.adoptBlock A b p).attempt fun result => ?_
  cases result with
  | ok advanced => exact .pure advanced
  | error e =>
    exact .bind (.update fun s => .single (.reindex s _ s.anchors s.reorgOrphanedBlocks)) fun _ => .fail e

section

variable {R : ChainState → ChainState → Prop} [IsPreorder ChainState R]
  {process : Block → Run ChainState String (Nat × Hash32)} (hp : ∀ b, Steps R (process b))

include hp

theorem processChildren_steps (children : List Block) (newHash : Hash32) :
    Steps R (processChildren process children newHash) := by
  induction children generalizing newHash with
  | nil => exact .pure newHash
  | cons child rest ih =>
    refine .bind (hp child).attempt fun result => ?_
    cases result with
    | ok r => exact ih r.2
    | error _ => exact ih newHash

variable (herase : ∀ s hash, R s { s with orphanPool := s.orphanPool.erase hash })

include herase

theorem drainOrphans_steps (fuel : Nat) (newHash : Hash32) : Steps R (drainOrphans process fuel newHash) := by
  induction fuel generalizing newHash with
  | zero => exact .fail _
  | succ fuel ih =>
    refine .bind .read fun s => ?_
    split
    next => exact .pure ()
    next children _ =>
      exact .bind (.update fun s => herase s newHash) fun _ =>
        .bind (processChildren_steps hp children newHash) fun newHash => ih newHash

omit hp in
/-- What a call of `process_block` consists of, the calls for the orphans that it releases included. -/
theorem processBlock_moves (horphan : ∀ s b, R s (addOrphan A s b)) (hadopt : ∀ b p, Steps R (indexAndAdopt C E A b p))
    (hprune : ∀ s, R s (pruneCaches C E s)) (fuel : Nat) (b : Block) : Steps R (processBlock C E A fuel b) := by
  induction fuel generalizing b with
  | zero => exact .fail _
  | succ fuel ih =>
    refine .bind .read fun s => ?_
    split
    next => exact .bind (.update fun s => horphan s b) fun _ => .fail _
    next =>
      exact .bind .read fun s => .bind (.lift _) fun _ => .bind (hadopt b _) fun _ => .bind .read fun s' =>
        .bind (drainOrphans_steps ih herase fuel _) fun _ => .bind (.update hprune) fun _ =>
          .bind .read fun _ => .bind (.lift _) fun _ => .pure _

end

theorem processBlock_steps (fuel : Nat) (b : Block) :
    Steps (ReflTransGen (Step C E AnyBlock)) (processBlock C E A fuel b) :=
  processBlock_moves A (fun s _ => .single (.reindex s _ s.anchors s.reorgOrphanedBlocks))
    (fun s _ => .single (.reindex s _ s.anchors s.reorgOrphanedBlocks)) (indexAndAdopt_steps A)
    (fun s => .single (pruneCaches_step s)) fuel b

end

end ChainState

end IriumConsensus
