import Mathlib.Data.List.Perm.Basic

namespace Tasks

/-- A program that asks for operations and goes on with their answers. -/
inductive Program (Op : Type) (Answer : Op → Type) (α : Type) where
  | done (a : α)
  | ask (op : Op) (k : Answer op → Program Op Answer α)

variable {Op : Type} {Answer : Op → Type} {α β ε : Type}

def Program.next : Program Op Answer α → Option Op
  | .done _ => none
  | .ask op _ => some op

def Program.bind : Program Op Answer α → (α → Program Op Answer β) → Program Op Answer β
  | .done a, f => f a
  | .ask op k, f => .ask op fun ans => (k ans).bind f

def Handler (Op : Type) (Answer : Op → Type) (ε α : Type) : Type := Program Op Answer (Except ε α)

namespace Handler

instance : Monad (Handler Op Answer ε) where
  pure a := Program.done (.ok a)
  bind x f := Program.bind x fun
    | .ok a => f a
    | .error e => .done (.error e)

def fail (e : ε) : Handler Op Answer ε α := .done (.error e)

def lift (x : Except ε α) : Handler Op Answer ε α := .done x

def attempt {ε' : Type} (x : Handler Op Answer ε α) : Handler Op Answer ε' (Except ε α) :=
  Program.bind x fun r => .done (.ok r)

def failIf (p : Prop) [Decidable p] (e : ε) : Handler Op Answer ε Unit := if p then fail e else pure ()

end Handler

section

/-- Watches the operations of a program: what may be asked for, and what is remembered of the answers. -/
structure Observer (Op : Type) (Answer : Op → Type) (Q : Type) where
  may : Q → Op → Prop
  next : Q → (op : Op) → Answer op → Q

variable {Q : Type} {O : Observer Op Answer Q} {ψ ψ' : Q → α → Prop} {q : Q} {p : Program Op Answer α}

/-- The program asks only for what the observer allows, and ends as `ψ` says, whatever the answers are. -/
def Obeys (O : Observer Op Answer Q) (ψ : Q → α → Prop) : Q → Program Op Answer α → Prop
  | q, .done a => ψ q a
  | q, .ask op k => O.may q op ∧ ∀ ans, Obeys O ψ (O.next q op ans) (k ans)

theorem Obeys.mono (hψ : ∀ q a, ψ q a → ψ' q a) (h : Obeys O ψ q p) : Obeys O ψ' q p := by
  induction p generalizing q with
  | done a => exact hψ q a h
  | ask op k ih => exact ⟨h.1, fun ans => ih ans (h.2 ans)⟩

theorem obeys_programBind {φ : Q → β → Prop} {f : α → Program Op Answer β} :
    Obeys O φ q (p.bind f) ↔ Obeys O (fun q a => Obeys O φ q (f a)) q p := by
  induction p generalizing q with
  | done a => exact Iff.rfl
  | ask op k ih => exact and_congr_right fun _ => forall_congr' fun ans => ih ans

variable {φ : Q → Except ε β → Prop} {x : Handler Op Answer ε α} {f : α → Handler Op Answer ε β}
  {ψ : Q → Except ε α → Prop}

theorem obeys_bind :
    Obeys O φ q (x >>= f : Handler Op Answer ε β) ↔ Obeys O (fun q r => match r with
      | .ok a => Obeys O φ q (f a)
      | .error e => φ q (.error e)) q x := by
  refine obeys_programBind.trans ?_
  constructor
  · refine Obeys.mono fun q r h => ?_
    cases r with
    | ok a => exact h
    | error e => exact h
  · refine Obeys.mono fun q r h => ?_
    cases r with
    | ok a => exact h
    | error e => exact h

@[simp] theorem obeys_attempt {ε' : Type} {x : Handler Op Answer ε β} {φ : Q → Except ε' (Except ε β) → Prop} :
    Obeys O φ q (x.attempt : Handler Op Answer ε' (Except ε β)) ↔ Obeys O (fun q r => φ q (.ok r)) q x :=
  obeys_programBind

theorem Obeys.andThen (hx : Obeys O ψ q x) (hok : ∀ q a, ψ q (.ok a) → Obeys O φ q (f a))
    (herr : ∀ q e, ψ q (.error e) → φ q (.error e)) : Obeys O φ q (x >>= f : Handler Op Answer ε β) := by
  refine obeys_bind.mpr (hx.mono fun q r h => ?_)
  cases r with
  | ok a => exact hok q a h
  | error e => exact herr q e h

theorem Obeys.keep (hx : Obeys O (fun q' _ => q' = q) q x) (hf : ∀ a, Obeys O (fun q' _ => q' = q) q (f a)) :
    Obeys O (fun q' _ => q' = q) q (x >>= f : Handler Op Answer ε β) :=
  hx.andThen (fun _ a hq => hq ▸ hf a) fun _ _ hq => hq

theorem obeys_ite {c : Prop} [Decidable c] {y : Handler Op Answer ε α} (hx : Obeys O ψ q x) (hy : Obeys O ψ q y) :
    Obeys O ψ q (if c then x else y : Handler Op Answer ε α) := by
  by_cases hc : c
  · simpa only [if_pos hc] using hx
  · simpa only [if_neg hc] using hy

theorem obeys_failIf {p : Prop} [Decidable p] {e : ε} :
    Obeys O (fun q' _ => q' = q) q (Handler.failIf p e : Handler Op Answer ε Unit) := obeys_ite rfl rfl

end

section

variable {may : Op → Prop} {φ : α → Prop} {ψ : β → Prop} {e : ε}

def Observer.constant (Answer : Op → Type) (may : Op → Prop) : Observer Op Answer Unit := ⟨fun _ => may, fun _ _ _ => ()⟩

/-- Whatever the answers are, the handler asks only for what `may` says; a value that it returns meets `φ`. -/
structure Emits (may : Op → Prop) (φ : α → Prop) (x : Handler Op Answer ε α) : Prop where
  obeys : Obeys (Observer.constant Answer may) (fun _ r => ∀ a, r = .ok a → φ a) () x

theorem Emits.bind {x : Handler Op Answer ε α} {f : α → Handler Op Answer ε β} (hx : Emits may φ x)
    (hf : ∀ a, φ a → Emits may ψ (f a)) : Emits may ψ (x >>= f) :=
  ⟨Obeys.andThen hx.obeys (fun _ a ha => (hf a (ha a rfl)).obeys) fun _ e _ b hb => absurd hb (by simp)⟩

theorem emits_pure {a : α} (h : φ a) : Emits may φ (pure a : Handler Op Answer ε α) := by
  refine ⟨fun b hb => ?_⟩
  rwa [← Except.ok.inj hb]

theorem emits_fail : Emits may φ (Handler.fail e : Handler Op Answer ε α) :=
  ⟨fun b hb => absurd hb (by simp)⟩

theorem emits_lift {x : Except ε α} : Emits may (fun a => x = .ok a) (Handler.lift x : Handler Op Answer ε α) :=
  ⟨fun _ h => h⟩

theorem emits_ask {op : Op} {k : Answer op → Except ε α} (hop : may op) :
    Emits may (fun _ => True) (.ask op fun ans => .done (k ans) : Handler Op Answer ε α) :=
  ⟨hop, fun _ _ _ => trivial⟩

theorem emits_failIf {p : Prop} [Decidable p] :
    Emits may (fun _ => ¬p) (Handler.failIf p e : Handler Op Answer ε Unit) := by
  unfold Handler.failIf
  split
  next => exact emits_fail
  next h => exact emits_pure h

end

/-- A shared state and the tasks that work on it, each with the request that it carries out. -/
structure System (σ Req : Type) (Op : Type) (Answer : Op → Type) (α : Type) where
  shared : σ
  tasks : List (Req × Program Op Answer α)

def System.running {σ Req : Type} (s : System σ Req Op Answer α) : List Req := s.tasks.map Prod.fst

inductive Event (Req Oracle : Type) where
  | start (req : Req)
  | advance (i : Nat) (o : Oracle)
  | crash

def System.asks {σ Req Oracle : Type} (s : System σ Req Op Answer α) : Event Req Oracle → Option (Req × Op × Oracle)
  | .advance i o =>
    match s.tasks[i]? with
    | some (req, .ask op _) => some (req, op, o)
    | _ => none
  | _ => none

/-- The program of each request, which requests may be started beside those that run, and what the operations do. -/
structure Machine (σ Req Oracle : Type) (Op : Type) (Answer : Op → Type) (α : Type) where
  program : Req → Program Op Answer α
  mayStart : List Req → Req → Bool
  exec : (op : Op) → Oracle → σ → Answer op × σ

namespace Machine

variable {σ Req Oracle : Type} (M : Machine σ Req Oracle Op Answer α)

/-- One event: a request comes in, a task does its next operation or ends, or all tasks are lost. -/
def step (s : System σ Req Op Answer α) : Event Req Oracle → Option (System σ Req Op Answer α)
  | .start req =>
    if M.mayStart s.running req then some { s with tasks := s.tasks ++ [(req, M.program req)] } else none
  | .advance i o =>
    match s.tasks[i]? with
    | none => none
    | some (_, .done _) => some { s with tasks := s.tasks.eraseIdx i }
    | some (req, .ask op k) =>
      let (ans, shared) := M.exec op o s.shared
      some ⟨shared, s.tasks.set i (req, k ans)⟩
  | .crash => some { s with tasks := [] }

def run (s : System σ Req Op Answer α) : List (Event Req Oracle) → Option (System σ Req Op Answer α)
  | [] => some s
  | e :: es => (M.step s e).bind fun s' => run s' es

/-- Each event of a run meets a condition on the state that it finds. -/
def Along (P : System σ Req Op Answer α → Event Req Oracle → Prop) (s : System σ Req Op Answer α) :
    List (Event Req Oracle) → Prop
  | [] => True
  | e :: es => P s e ∧ ∀ s', M.step s e = some s' → Along P s' es

instance decidableAlong {P : System σ Req Op Answer α → Event Req Oracle → Prop} [∀ s e, Decidable (P s e)] :
    ∀ es s, Decidable (M.Along P s es)
  | [], _ => isTrue trivial
  | e :: es, s =>
    have : ∀ s', Decidable (M.Along P s' es) := decidableAlong es
    inferInstanceAs (Decidable (P s e ∧ ∀ s' ∈ M.step s e, M.Along P s' es))

variable {M} {s s' s'' : System σ Req Op Answer α} {e : Event Req Oracle} {es : List (Event Req Oracle)}
  {I : System σ Req Op Answer α → Prop} {P P' : System σ Req Op Answer α → Event Req Oracle → Prop}

theorem step_cases (h : M.step s e = some s') :
    (∃ req, e = .start req ∧ M.mayStart s.running req ∧
      s' = { s with tasks := s.tasks ++ [(req, M.program req)] }) ∨
    (∃ i o req op k, e = .advance i o ∧ s.tasks[i]? = some (req, .ask op k) ∧
      s' = ⟨(M.exec op o s.shared).2, s.tasks.set i (req, k (M.exec op o s.shared).1)⟩) ∨
    (∃ i o req a, e = .advance i o ∧ s.tasks[i]? = some (req, .done a) ∧
      s' = { s with tasks := s.tasks.eraseIdx i }) ∨
    (e = .crash ∧ s' = { s with tasks := [] }) := by
  cases e with
  | start req =>
    refine .inl ⟨req, rfl, ?_⟩
    simp only [step] at h
    split at h
    next hmay => exact ⟨hmay, (Option.some.inj h).symm⟩
    next => exact absurd h (by simp)
  | advance i o =>
    simp only [step] at h
    cases htask : s.tasks[i]? with
    | none => simp [htask] at h
    | some task =>
      obtain ⟨req, p⟩ := task
      rw [htask] at h
      cases p with
      | done a => exact .inr (.inr (.inl ⟨i, o, req, a, rfl, htask, (Option.some.inj h).symm⟩))
      | ask op k => exact .inr (.inl ⟨i, o, req, op, k, rfl, htask, (Option.some.inj h).symm⟩)
  | crash => exact .inr (.inr (.inr ⟨rfl, (Option.some.inj h).symm⟩))

theorem asks_of_ask {i : Nat} {o : Oracle} {req : Req} {op : Op} {k : Answer op → Program Op Answer α}
    (h : s.tasks[i]? = some (req, .ask op k)) : s.asks (.advance i o : Event Req Oracle) = some (req, op, o) := by
  rw [System.asks, h]

theorem step_shared (h : M.step s e = some s') : (s.asks e = none ∧ s'.shared = s.shared) ∨
    ∃ req op o, s.asks e = some (req, op, o) ∧ s'.shared = (M.exec op o s.shared).2 := by
  obtain ⟨req, rfl, -, rfl⟩ | ⟨i, o, req, op, k, rfl, htask, rfl⟩ | ⟨i, o, req, a, rfl, htask, rfl⟩ | ⟨rfl, rfl⟩ :=
    step_cases h
  · exact .inl ⟨rfl, rfl⟩
  · exact .inr ⟨req, op, o, asks_of_ask htask, rfl⟩
  · refine .inl ⟨?_, rfl⟩
    rw [System.asks, htask]
  · exact .inl ⟨rfl, rfl⟩

theorem exists_ask_of_asks {x : Req × Op × Oracle} (h : s.asks e = some x) :
    ∃ i k, e = .advance i x.2.2 ∧ s.tasks[i]? = some (x.1, .ask x.2.1 k) := by
  cases e with
  | start req => exact absurd h (by simp [System.asks])
  | crash => exact absurd h (by simp [System.asks])
  | advance i o =>
    simp only [System.asks] at h
    split at h
    next req op k htask =>
      obtain rfl := Option.some.inj h
      exact ⟨i, k, rfl, htask⟩
    next => exact absurd h (by simp)

theorem run_cons_iff : M.run s (e :: es) = some s'' ↔ ∃ s', M.step s e = some s' ∧ M.run s' es = some s'' := by
  rw [run, Option.bind_eq_some_iff]

theorem step_tasks {L : Req → Program Op Answer α → Prop} (hstart : ∀ req, L req (M.program req))
    (hask : ∀ req op k, L req (.ask op k) → ∀ ans, L req (k ans)) (hs : ∀ task ∈ s.tasks, L task.1 task.2)
    (h : M.step s e = some s') : ∀ task ∈ s'.tasks, L task.1 task.2 := by
  obtain ⟨req, -, -, rfl⟩ | ⟨i, o, req, op, k, -, htask, rfl⟩ | ⟨i, o, req, a, -, -, rfl⟩ | ⟨-, rfl⟩ := step_cases h
  · intro task hmem
    rcases List.mem_append.mp hmem with hold | hnew
    · exact hs task hold
    · rw [List.mem_singleton.mp hnew]
      exact hstart req
  · intro task hmem
    rcases List.mem_or_eq_of_mem_set hmem with hold | rfl
    · exact hs task hold
    · exact hask req op k (hs _ (List.mem_of_getElem? htask)) _
  · exact fun task hmem => hs task (List.mem_of_mem_eraseIdx hmem)
  · exact fun task hmem => absurd hmem (List.not_mem_nil)

section

variable (f : Req × Program Op Answer α → Bool)

theorem countP_set {l : List β} {i : Nat} {x : β} (h : l[i]? = some x) (y : β) (g : β → Bool) :
    (l.set i y).countP g + (if g x then 1 else 0) = l.countP g + if g y then 1 else 0 := by
  obtain ⟨hi, rfl⟩ := List.getElem?_eq_some_iff.mp h
  rw [(List.set_perm_cons_eraseIdx hi y).countP_eq, ← (List.getElem_cons_eraseIdx_perm hi).countP_eq,
    List.countP_cons, List.countP_cons]
  omega

theorem step_countP (hstart : ∀ req, f (req, M.program req) = false) (hdone : ∀ req a, f (req, .done a) = false)
    (hcrash : e ≠ .crash) (h : M.step s e = some s') :
    (s.asks e = none ∧ s'.tasks.countP f = s.tasks.countP f) ∨
      ∃ req op o k, s.asks e = some (req, op, o) ∧ (req, .ask op k) ∈ s.tasks ∧
        s'.tasks.countP f + (if f (req, .ask op k) then 1 else 0) =
          s.tasks.countP f + if f (req, k (M.exec op o s.shared).1) then 1 else 0 := by
  obtain ⟨req, rfl, -, rfl⟩ | ⟨i, o, req, op, k, rfl, htask, rfl⟩ | ⟨i, o, req, a, rfl, htask, rfl⟩ | ⟨rfl, rfl⟩ :=
    step_cases h
  · exact .inl ⟨rfl, by simp [hstart req]⟩
  · exact .inr ⟨req, op, o, k, asks_of_ask htask, List.mem_of_getElem? htask, countP_set htask _ f⟩
  · refine .inl ⟨by rw [System.asks, htask], ?_⟩
    obtain ⟨hi, hget⟩ := List.getElem?_eq_some_iff.mp htask
    have hperm := (List.getElem_cons_eraseIdx_perm hi).countP_eq f
    rw [hget, List.countP_cons, hdone] at hperm
    simpa using hperm
  · exact absurd rfl hcrash

end

section

variable {I : σ → Prop} {R : Req → Req → Prop} {L : σ → Req → Program Op Answer α → Prop} {i : Nat}

/-- The shared state is sound, the requests that run side by side may do so, and each task has what it relies on. -/
structure Relied (I : σ → Prop) (R : Req → Req → Prop) (L : σ → Req → Program Op Answer α → Prop)
    (s : System σ Req Op Answer α) : Prop where
  sound : I s.shared
  apart : s.tasks.Pairwise fun a b => R a.1 b.1
  law : ∀ task ∈ s.tasks, L s.shared task.1 task.2

theorem mem_set_apart {S : β → β → Prop} (hsymm : ∀ a b, S a b → S b a) {l : List β} (hl : l.Pairwise S) {x y b : β}
    (hx : l[i]? = some x) (hb : b ∈ l.set i y) : b = y ∨ b ∈ l ∧ S x b := by
  obtain ⟨hi, rfl⟩ := List.getElem?_eq_some_iff.mp hx
  obtain ⟨j, hj, rfl⟩ := List.getElem_of_mem hb
  rw [List.length_set] at hj
  rw [List.getElem_set]
  rw [List.pairwise_iff_getElem] at hl
  split
  next => exact .inl rfl
  next hne =>
    refine .inr ⟨List.getElem_mem hj, ?_⟩
    rcases Nat.lt_or_gt_of_ne hne with hlt | hgt
    · exact hl i j hi hj hlt
    · exact hsymm _ _ (hl j i hj hi hgt)

theorem running_set {req : Req} {p : Program Op Answer α} (h : s.tasks[i]? = some (req, p)) (p' : Program Op Answer α) :
    (s.tasks.set i (req, p')).map Prod.fst = s.tasks.map Prod.fst := by
  obtain ⟨hi, hget⟩ := List.getElem?_eq_some_iff.mp h
  have hi' : i < (s.tasks.map Prod.fst).length := by simpa using hi
  have hreq : (s.tasks.map Prod.fst)[i] = req := by simp [hget]
  rw [List.map_set, ← hreq, List.set_getElem_self]

theorem Relied.step (hsymm : ∀ a b, R a b → R b a)
    (hmay : ∀ running req, M.mayStart running req → ∀ r ∈ running, R r req)
    (hstart : ∀ x req, L x req (M.program req))
    (hexec : ∀ x o req op k, I x → L x req (.ask op k) →
      I (M.exec op o x).2 ∧ L (M.exec op o x).2 req (k (M.exec op o x).1) ∧
        ∀ req' p, R req req' → L x req' p → L (M.exec op o x).2 req' p)
    (hs : Relied I R L s) (h : M.step s e = some s') : Relied I R L s' := by
  obtain ⟨req, -, hreq, rfl⟩ | ⟨i, o, req, op, k, -, htask, rfl⟩ | ⟨i, o, req, a, -, -, rfl⟩ | ⟨-, rfl⟩ := step_cases h
  · refine ⟨hs.sound, List.pairwise_append.mpr ⟨hs.apart, List.pairwise_singleton _ _, fun a ha b hb => ?_⟩,
      fun task hmem => ?_⟩
    · rw [List.mem_singleton.mp hb]
      exact hmay _ req hreq a.1 (List.mem_map_of_mem ha)
    · rcases List.mem_append.mp hmem with hold | hnew
      · exact hs.law task hold
      · rw [List.mem_singleton.mp hnew]
        exact hstart s.shared req
  · obtain ⟨hsound, hself, hother⟩ := hexec s.shared o req op k hs.sound (hs.law _ (List.mem_of_getElem? htask))
    refine ⟨hsound, ?_, fun task hmem => ?_⟩
    · exact List.pairwise_map.mp (running_set htask _ ▸ List.pairwise_map.mpr hs.apart)
    · rcases mem_set_apart (fun a b => hsymm a.1 b.1) hs.apart htask hmem with rfl | ⟨hold, happart⟩
      · exact hself
      · exact hother task.1 task.2 happart (hs.law task hold)
  · exact ⟨hs.sound, hs.apart.sublist (List.eraseIdx_sublist _ _),
      fun task hmem => hs.law task (List.mem_of_mem_eraseIdx hmem)⟩
  · exact ⟨hs.sound, List.Pairwise.nil, fun task hmem => absurd hmem List.not_mem_nil⟩

end

theorem run_invariant (hstep : ∀ s e s', I s → M.step s e = some s' → I s') (hs : I s) (hrun : M.run s es = some s') :
    I s' := by
  induction es generalizing s with
  | nil => exact Option.some.inj hrun ▸ hs
  | cons e es ih =>
    obtain ⟨t, he, ht⟩ := run_cons_iff.mp hrun
    exact ih (hstep s e t hs he) ht

theorem Along.history {I : List (Event Req Oracle) → System σ Req Op Answer α → Prop} {past : List (Event Req Oracle)}
    (hstep : ∀ past s e s', I past s → P s e → M.step s e = some s' → I (past ++ [e]) s') (hs : I past s)
    (halong : M.Along P s es) (hrun : M.run s es = some s') : I (past ++ es) s' := by
  induction es generalizing s past with
  | nil => rwa [List.append_nil, ← Option.some.inj hrun]
  | cons e es ih =>
    obtain ⟨t, he, ht⟩ := run_cons_iff.mp hrun
    have h := ih (hstep past s e t hs halong.1 he) (halong.2 t he) ht
    rwa [List.append_assoc, List.singleton_append] at h

theorem Along.and (h : M.Along P s es) (h' : M.Along P' s es) : M.Along (fun s e => P s e ∧ P' s e) s es := by
  induction es generalizing s with
  | nil => trivial
  | cons e es ih => exact ⟨⟨h.1, h'.1⟩, fun t ht => ih (h.2 t ht) (h'.2 t ht)⟩

/-- Two conditions that agree where an invariant holds agree along a run, if the first one keeps the invariant. -/
theorem along_congr (hstep : ∀ s e s', I s → P s e → M.step s e = some s' → I s') (h : ∀ s e, I s → (P s e ↔ P' s e))
    (hs : I s) :
    M.Along P s es ↔ M.Along P' s es := by
  induction es generalizing s with
  | nil => exact Iff.rfl
  | cons e es ih =>
    constructor
    · rintro ⟨hp, hrest⟩
      exact ⟨(h s e hs).mp hp, fun s' hs' => (ih (hstep s e s' hs hp hs')).mp (hrest s' hs')⟩
    · rintro ⟨hp, hrest⟩
      have hp' := (h s e hs).mpr hp
      exact ⟨hp', fun s' hs' => (ih (hstep s e s' hs hp' hs')).mpr (hrest s' hs')⟩

theorem along_and_of_forall {Q : Event Req Oracle → Prop} (hes : ∀ e ∈ es, Q e) :
    M.Along (fun s e => Q e ∧ P s e) s es ↔ M.Along P s es := by
  induction es generalizing s with
  | nil => exact Iff.rfl
  | cons e es ih =>
    have hrest : ∀ s', M.Along (fun s e => Q e ∧ P s e) s' es ↔ M.Along P s' es := fun s' =>
      ih fun e he => hes e (List.mem_cons_of_mem _ he)
    simp only [Along, hrest, and_iff_right (hes e List.mem_cons_self)]

end Machine

end Tasks
