import IriumConsensus.Reachable

namespace IriumConsensus

open ByteCodec Stateful Relation

namespace ChainState

section

variable (C : Crypto) (E : NodeEnv) (A : Ambient)

/-- A call of `process_block`: the state it starts in and the block it is given. -/
abbrev Call := ChainState × Block

variable (process : Block → Run ChainState String (Nat × Hash32)) (calls : Block → ChainState → List Call)

def childrenCalls : List Block → ChainState → List Call
  | [], _ => []
  | child :: rest, s => calls child s ++ childrenCalls rest (process child s).2

def drainCalls : Nat → Hash32 → ChainState → List Call
  | 0, _, _ => []
  | fuel + 1, newHash, s =>
    match s.orphanPool.lookup newHash with
    | none => []
    | some children =>
      let s := { s with orphanPool := s.orphanPool.erase newHash }
      childrenCalls process calls children s ++
        match processChildren process children newHash s with
        | (.ok newHash, s) => drainCalls fuel newHash s
        | (.error _, _) => []

def knownCalls (fuel : Nat) (b : Block) (s : ChainState) : List Call :=
  match checkPlacement C E s b (place C E s b) with
  | .error _ => []
  | .ok _ =>
    match indexAndAdopt C E A b (place C E s b) s with
    | (.ok _, s) => drainCalls process calls fuel (tipHash C E s) s
    | (.error _, _) => []

/-- The calls that a call of `process_block` consists of: itself and, for the orphans it releases,
the recursive ones, in the order in which they start. -/
def processCalls : Nat → Block → ChainState → List Call
  | 0, _, _ => []
  | fuel + 1, b, s =>
    (s, b) ::
      if b.header.prevHash ≠ ByteVec.zero 32 ∧ b.header.prevHash ∉ s.blockStore then []
      else knownCalls C E A (processBlock C E A fuel) (processCalls fuel) fuel b s

/-- One call of `process_block` of which every call it consists of is allowed. -/
def CallStep (Allowed : ChainState → Block → Prop) (s s' : ChainState) : Prop :=
  ∃ A fuel b, (∀ call ∈ processCalls C E A fuel b s, Allowed call.1 call.2) ∧
    s' = (processBlock C E A fuel b s).2

def afterCalls (fuel : Nat) (bs : List Block) (s : ChainState) : ChainState :=
  bs.foldl (fun s b => (processBlock C E A fuel b s).2) s

end

variable {C : Crypto} {E : NodeEnv} {A : Ambient} {s s' : ChainState}

theorem Reachable.after {α : Type} {x : Run ChainState String α} (hs : Reachable C E s)
    (hx : Steps (ReflTransGen (Step C E AnyBlock)) x) : Reachable C E (x s).2 := by
  obtain ⟨A, params, s₀, hg, hnew, hrun⟩ := hs
  exact ⟨A, params, s₀, hg, hnew, hrun.trans (hx s)⟩

theorem reachable_of_calls {Allowed : ChainState → Block → Prop} (hs : Reachable C E s)
    (hrun : ReflTransGen (CallStep C E Allowed) s s') : Reachable C E s' := by
  induction hrun with
  | refl => exact hs
  | tail _ hstep ih =>
    obtain ⟨A, fuel, b, -, rfl⟩ := hstep
    exact ih.after (processBlock_steps A fuel b)

theorem afterCalls_run (fuel : Nat) (bs : List Block) (s : ChainState) :
    ReflTransGen (CallStep C E fun _ _ => True) s (afterCalls C E A fuel bs s) := by
  induction bs generalizing s with
  | nil => exact .refl
  | cons b rest ih => exact .head ⟨A, fuel, b, fun _ _ => trivial, rfl⟩ (ih _)

section

variable {P : ChainState → Prop} {Allowed : ChainState → Block → Prop}
  (hpool : ∀ s pool, P s → P { s with orphanPool := pool })

include hpool

def CallsKeep (P : ChainState → Prop) (Allowed : ChainState → Block → Prop)
    (process : Block → Run ChainState String (Nat × Hash32)) (calls : Block → ChainState → List Call) : Prop :=
  ∀ b s, (∀ call ∈ calls b s, Allowed call.1 call.2) → Keeps P s (process b s).2

section

variable {process : Block → Run ChainState String (Nat × Hash32)} {calls : Block → ChainState → List Call}
  (hc : CallsKeep P Allowed process calls)

include hc

omit hpool in
theorem processChildren_keeps (children : List Block) (newHash : Hash32)
    (hcalls : ∀ call ∈ childrenCalls process calls children s, Allowed call.1 call.2) :
    Keeps P s (processChildren process children newHash s).2 := by
  induction children generalizing newHash s with
  | nil => exact refl_of (Keeps P) s
  | cons child rest ih =>
    simp only [childrenCalls, List.mem_append, or_imp, forall_and] at hcalls
    refine rel_bind (hc child s hcalls.1) fun result s₁ hr => ?_
    obtain rfl : (process child s).2 = s₁ := (Prod.mk.inj hr).2
    cases result with
    | ok r => exact ih r.2 hcalls.2
    | error e => exact ih newHash hcalls.2

theorem drainOrphans_keeps (fuel : Nat) (newHash : Hash32)
    (hcalls : ∀ call ∈ drainCalls process calls fuel newHash s, Allowed call.1 call.2) :
    Keeps P s (drainOrphans process fuel newHash s).2 := by
  induction fuel generalizing newHash s with
  | zero => exact refl_of (Keeps P) s
  | succ fuel ih =>
    simp only [drainOrphans, read_bind, drainCalls] at hcalls ⊢
    cases hl : s.orphanPool.lookup newHash with
    | none => exact refl_of (Keeps P) s
    | some children =>
      simp only [hl, List.mem_append, or_imp, forall_and] at hcalls
      have hchildren := processChildren_keeps hc children newHash hcalls.1
      refine trans_of (Keeps P) (hpool s (s.orphanPool.erase newHash)) (rel_bind hchildren fun newHash' s₂ hr => ?_)
      rw [hr] at hcalls
      exact ih newHash' hcalls.2

end

variable (hprune : ∀ s, P s → P (pruneCaches C E s))
  (hadopt : ∀ A b s, Allowed s b → (b.header.prevHash ≠ ByteVec.zero 32 → b.header.prevHash ∈ s.blockStore) →
    checkPlacement C E s b (place C E s b) = .ok () → P s → P (indexAndAdopt C E A b (place C E s b) s).2)

include hprune hadopt

theorem processBlock_keeps (A : Ambient) (fuel : Nat) :
    CallsKeep P Allowed (processBlock C E A fuel) (processCalls C E A fuel) := by
  induction fuel with
  | zero => exact fun b s _ => refl_of (Keeps P) s
  | succ fuel ih =>
    intro b s hcalls
    simp only [processCalls, List.forall_mem_cons] at hcalls
    simp only [processBlock, read_bind]
    split
    next => exact hpool s _
    next hknown =>
      have hparent : b.header.prevHash ≠ ByteVec.zero 32 → b.header.prevHash ∈ s.blockStore := by
        intro hne
        by_contra hmem
        exact hknown ⟨hne, hmem⟩
      rw [if_neg hknown] at hcalls
      obtain ⟨hfirst, hcalls⟩ := hcalls
      simp only [processKnown, read_bind, knownCalls] at hcalls ⊢
      refine rel_bind (refl_of (Keeps P) s) fun _ t hr => ?_
      obtain ⟨hcheck, rfl⟩ := Prod.mk.inj hr
      refine rel_bind (hadopt A b s hfirst hparent hcheck) fun advanced s₁ hr => ?_
      simp only [hcheck, hr] at hcalls
      rw [read_bind]
      refine rel_bind (drainOrphans_keeps hpool ih fuel (tipHash C E s₁) hcalls) fun _ s₂ _ => ?_
      exact (Steps.update hprune).bind (fun _ => .bind .read fun _ => .bind (.lift _) fun _ => .pure _) s₂

theorem calls_keep (hrun : ReflTransGen (CallStep C E Allowed) s s') : Keeps P s s' := by
  induction hrun with
  | refl => exact refl_of (Keeps P) s
  | tail _ hstep ih =>
    obtain ⟨A, fuel, b, hcalls, rfl⟩ := hstep
    exact trans_of (Keeps P) ih (processBlock_keeps hpool hprune hadopt A fuel b _ hcalls)

end

end ChainState

end IriumConsensus
