import IriumConsensus.Persist.Writer

namespace IriumConsensus

open FinMaps Tasks

namespace Persist

def lastBlock (jobs : List PersistJob) (height : Nat) : Option Block :=
  jobs.reverse.findSome? fun job => if job.height = height then some job.block else none

def submissions (es : List NodeEvent) : List PersistJob :=
  es.filterMap fun
    | .start req => req.submission
    | _ => none

def fileBlock (x : PersistState) (height : Nat) : Option Block := (x.files.lookup height).bind (·.block)

/-- The jobs that the writer has still to write, or has not counted off yet. -/
def waiting (x : PersistState) : List PersistJob := x.job.toList ++ x.queue

/-- The block that the file of a height holds once the channel is drained. -/
def due (x : PersistState) (height : Nat) : Option Block := (lastBlock (waiting x) height).or (fileBlock x height)

def submits (req : PersistRequest) : Bool := req.submission.isSome

/-- One submission after the other; the writer runs beside them. -/
def InSequence (s : NodeState) : NodeEvent → Prop
  | .start req => submits req → ∀ r ∈ s.running, submits r = false
  | _ => True

instance (s : NodeState) : ∀ e, Decidable (InSequence s e)
  | .start req => inferInstanceAs (Decidable (submits req → ∀ r ∈ s.running, submits r = false))
  | .advance _ _ => isTrue trivial
  | .crash => isTrue trivial

structure Served (es : List NodeEvent) : Prop where
  noCrash : .crash ∉ es
  diskOk : ∀ i o, .advance i o ∈ es → o.diskOk
  inRange : ∀ job ∈ submissions es, job.height ≤ maxStoredHeight

structure Drained (s : NodeState) : Prop where
  tasks : s.tasks = []
  waiting : waiting s.shared = []

variable (C : Crypto) (E : NodeEnv)

/-- No job for the height is waiting, and a file there that has the header hash of the block holds that block. -/
structure Undisturbed (x : PersistState) (job : PersistJob) : Prop where
  none : ∀ j ∈ waiting x, j.height ≠ job.height
  same : ∀ text ∈ x.files.lookup job.height, matchingHeader C E job.height job.block text →
    text.block = some job.block

instance (x : PersistState) (job : PersistJob) : Decidable (Undisturbed C E x job) :=
  decidable_of_iff ((∀ j ∈ waiting x, j.height ≠ job.height) ∧ ∀ text ∈ x.files.lookup job.height,
    matchingHeader C E job.height job.block text → text.block = some job.block)
    ⟨fun h => ⟨h.1, h.2⟩, fun h => ⟨h.none, h.same⟩⟩

/-- A submission that works on a file itself is undisturbed. -/
def DirectUndisturbed (s : NodeState) (e : NodeEvent) : Prop :=
  ∀ ask ∈ s.asks e, ∀ job ∈ ask.1.submission, ask.2.1.onFile job.height → Undisturbed C E s.shared job

instance (s : NodeState) (e : NodeEvent) : Decidable (DirectUndisturbed C E s e) :=
  inferInstanceAs (Decidable (∀ ask ∈ s.asks e, ∀ job ∈ ask.1.submission,
    ask.2.1.onFile job.height → Undisturbed C E s.shared job))

section

variable {C E} {x : PersistState} {height : Nat} {b : Block} {α β : Type} {file : Option BlockText}
  {R : Option BlockText → α → Prop} {x : PersistCall α}

/-- The program works on the file of one height alone until `Q` is met. -/
inductive Leads (height : Nat) (Q : Option BlockText → Program PersistOp PersistOp.Answer α → Prop) :
    Option BlockText → Program PersistOp PersistOp.Answer α → Prop
  | ready {file : Option BlockText} {p : Program PersistOp PersistOp.Answer α} (h : Q file p) : Leads height Q file p
  | read {file : Option BlockText} {k : Except String (Option BlockText) → Program PersistOp PersistOp.Answer α}
      (h : Leads height Q file (k (.ok file))) : Leads height Q file (.ask (.readFile height) k)
  | move {file : Option BlockText} {k : Unit → Program PersistOp PersistOp.Answer α}
      (h : Leads height Q none (k ())) : Leads height Q file (.ask (.quarantine height) k)
  | write {file : Option BlockText} {k : Except String Unit → Program PersistOp PersistOp.Answer α} {text : BlockText}
      (h : Leads height Q (some text) (k (.ok ()))) : Leads height Q file (.ask (.writeFile height text) k)

/-- The call returns a value, and `R` holds of it and of what it leaves in the file. -/
def Gives (height : Nat) (R : Option BlockText → α → Prop) (file : Option BlockText) (x : PersistCall α) : Prop :=
  Leads height (fun file p => ∃ a, p = .done (.ok a) ∧ R file a) file x

theorem gives_bind {f : α → PersistCall β}
    {Q : Option BlockText → Program PersistOp PersistOp.Answer (Except String β) → Prop} (hx : Gives height R file x)
    (hf : ∀ file a, R file a → Leads height Q file (f a)) : Leads height Q file (x >>= f : PersistCall β) := by
  induction hx with
  | ready h =>
    obtain ⟨a, rfl, ha⟩ := h
    exact hf _ a ha
  | read _ ih => exact .read ih
  | move _ ih => exact .move ih
  | write _ ih => exact .write ih

theorem Gives.mono {R' : Option BlockText → α → Prop} (hx : Gives height R file x)
    (hR : ∀ file a, R file a → R' file a) : Gives height R' file x := by
  induction hx with
  | ready h =>
    obtain ⟨a, rfl, ha⟩ := h
    exact .ready ⟨a, rfl, hR _ a ha⟩
  | read _ ih => exact .read ih
  | move _ ih => exact .move ih
  | write _ ih => exact .write ih

theorem gives_attempt (hx : Gives height R file x) :
    Gives height (fun file r => ∃ a, r = .ok a ∧ R file a) file (x.attempt : PersistCall (Except String α)) := by
  induction hx with
  | ready h =>
    obtain ⟨a, rfl, ha⟩ := h
    exact .ready ⟨.ok a, rfl, a, rfl, ha⟩
  | read _ ih => exact .read ih
  | move _ ih => exact .move ih
  | write _ ih => exact .write ih

theorem gives_pure {a : α} (h : R file a) :
    Gives height R file (pure a : PersistCall α) := .ready ⟨a, rfl, h⟩

theorem gives_inRange (h : height ≤ maxStoredHeight) (e : String) :
    Gives height (fun file' _ => file' = file) file (Handler.failIf (maxStoredHeight < height) e) := by
  rw [Handler.failIf, if_neg (Nat.not_lt.mpr h)]
  exact gives_pure rfl

theorem gives_read : Gives height (fun file' text => file' = file ∧ text = file) file (readBlockJson height) :=
  .read (.ready ⟨file, rfl, rfl, rfl⟩)

theorem gives_writeString (text : BlockText) :
    Gives height (fun file' _ => file' = some text) file (writeBlockJsonString height text) :=
  .write (.ready ⟨(), rfl, rfl⟩)

theorem gives_ite {c : Prop} [Decidable c] {y : PersistCall α} (hx : c → Gives height R file x)
    (hy : ¬c → Gives height R file y) :
    Gives height R file (if c then x else y : PersistCall α) := by
  by_cases hc : c
  · simpa only [if_pos hc] using hx hc
  · simpa only [if_neg hc] using hy hc

theorem gives_sync (file : Option BlockText) (h : height ≤ maxStoredHeight) :
    Gives height (fun file' _ => file' = some ⟨some b, none⟩) file (writeBlockJsonSync C E height b) := by
  have hmove : ∀ file, Gives height (fun _ _ => True) file (maybeQuarantineExistingBlock C E height b) := by
    refine fun file => gives_bind (gives_attempt gives_read) fun file' text htext => ?_
    obtain ⟨existing, rfl, -⟩ := htext
    cases existing with
    | none => exact gives_pure (R := fun _ _ => True) trivial
    | some text => exact gives_ite (fun _ => gives_pure trivial) fun _ => .move (.ready ⟨(), rfl, trivial⟩)
  exact gives_bind (gives_inRange h _) fun file _ _ => gives_bind (hmove file) fun file _ _ => gives_writeString _

theorem gives_withSource (h : height ≤ maxStoredHeight) (submitSource : Option String)
    (hfile : ∀ text ∈ file, matchingHeader C E height b text → text.block = some b) :
    Gives height (fun file' _ => file'.bind (·.block) = some b) file
      (writeBlockJsonWithSource C E height b submitSource) := by
  refine gives_bind (gives_inRange h _) fun _ _ hin => gives_bind gives_read fun file' existing hread => ?_
  obtain ⟨rfl, rfl⟩ := hread
  subst hin
  refine gives_bind (R := fun file' _ => file'.bind (·.block) = some b) (gives_ite (fun hany => ?_) fun _ => ?_)
    fun file' _ hblock => ?_
  · cases existing with
    | none => cases hany
    | some text => exact gives_pure (hfile text rfl hany)
  · exact (gives_sync _ h).mono fun file' _ hwritten => hwritten ▸ rfl
  · obtain ⟨text, rfl, htext⟩ := Option.bind_eq_some_iff.mp hblock
    refine gives_bind (R := fun _ value => value = text) (gives_bind gives_read fun _ _ hread => ?_) fun _ value hvalue => ?_
    · obtain ⟨-, rfl⟩ := hread
      exact gives_pure (R := fun _ value => value = text) rfl
    · exact (gives_writeString _).mono fun _ _ hwritten => by rw [hwritten, hvalue]; exact htext

end

section

variable {C E} {G : PersistConfig} {x x' : PersistState} {height : Nat} {job : PersistJob} {p : PersistProgram}
  {jobs : List PersistJob} {op : PersistOp} {k : op.Answer → PersistProgram} {o : PersistWorld}

theorem lastBlock_append (jobs jobs' : List PersistJob) (height : Nat) :
    lastBlock (jobs ++ jobs') height = (lastBlock jobs' height).or (lastBlock jobs height) := by
  rw [lastBlock, List.reverse_append, List.findSome?_append]
  rfl

theorem lastBlock_singleton (job : PersistJob) (height : Nat) :
    lastBlock [job] height = if job.height = height then some job.block else none := by
  simp [lastBlock]

theorem lastBlock_eq_none : lastBlock jobs height = none ↔ ∀ job ∈ jobs, job.height ≠ height := by
  simp [lastBlock]

def StoresBlock (job : PersistJob) (file : Option BlockText) (p : PersistProgram) : Prop :=
  Gives job.height (fun file _ => file.bind (·.block) = some job.block) file p

variable (C E) in
def Ready (job : PersistJob) (p : PersistProgram) : Prop :=
  ∀ file : Option BlockText, (∀ text ∈ file, matchingHeader C E job.height job.block text →
    text.block = some job.block) → StoresBlock job file p

variable (C E) in
/-- Where a submission is: before it has found out whether it can send its job, before its first look at the file, at
work on the file, or done with sending. -/
inductive Submitting (x : PersistState) (job : PersistJob) : PersistProgram → Prop
  | unsent {k : Bool → PersistProgram} (hsent : k true = fetchAdd) (hfull : Ready C E job (k false)) :
      Submitting x job (.ask (.trySend job) k)
  | fresh {p : PersistProgram} (h : Ready C E job p) : Submitting x job p
  | direct {p : PersistProgram} (hnone : ∀ j ∈ waiting x, j.height ≠ job.height)
      (h : StoresBlock job (x.files.lookup job.height) p) : Submitting x job p
  | sent {p : PersistProgram} (hdue : due x job.height = some job.block) (hp : p = fetchAdd ∨ ∃ r, p = .done r) :
      Submitting x job p

variable (C E) in
inductive Writing (x : PersistState) : PersistProgram → Prop
  | idle {p : PersistProgram} (hp : p = writerRound C E ∨ ∃ r, p = .done r) : Writing x p
  | holding {p : PersistProgram} {job : PersistJob} (hjob : x.job = some job)
      (h : Leads job.height (fun file p => p = fetchSub ∧ file.bind (·.block) = some job.block)
        (x.files.lookup job.height) p) : Writing x p

structure WriterMove (x x' : PersistState) : Prop where
  due : ∀ height, due x' height = due x height
  fewer : ∀ j ∈ waiting x', j ∈ waiting x
  files : ∀ height, (∀ j ∈ waiting x, j.height ≠ height) → x'.files.lookup height = x.files.lookup height

structure SubmitMove (job : PersistJob) (x x' : PersistState) : Prop where
  due : ∀ height, height ≠ job.height → due x' height = due x height
  more : ∀ j ∈ waiting x', j ∈ waiting x ∨ j = job
  held : x'.job = x.job
  files : ∀ j ∈ x.job, x'.files.lookup j.height = x.files.lookup j.height

theorem exec_onFile (hop : op.onFile height) (o : PersistWorld) (x : PersistState) :
    (exec G op o x).2.job = x.job ∧ (exec G op o x).2.queue = x.queue ∧
      ∀ h, h ≠ height → (exec G op o x).2.files.lookup h = x.files.lookup h := by
  cases op with
  | readFile h => exact ⟨rfl, rfl, fun _ _ => rfl⟩
  | quarantine h =>
    obtain rfl : h = height := of_decide_eq_true hop
    simp only [exec]
    split
    next => exact ⟨rfl, rfl, fun h' hne => by rw [lookup_erase_eq, if_neg hne]⟩
    next => exact ⟨rfl, rfl, fun _ _ => rfl⟩
  | writeFile h text =>
    obtain rfl : h = height := of_decide_eq_true hop
    simp only [exec]
    split
    next => exact ⟨rfl, rfl, fun h' hne => by rw [lookup_insert_eq, if_neg hne]⟩
    next => exact ⟨rfl, rfl, fun _ _ => rfl⟩
  | _ => cases hop

theorem Leads.exec {Q : Option BlockText → PersistProgram → Prop}
    (h : Leads height Q (x.files.lookup height) (.ask op k)) (hok : o.diskOk) :
    Q (x.files.lookup height) (.ask op k) ∨ op.onFile height ∧
      Leads height Q ((Persist.exec G op o x).2.files.lookup height) (k (Persist.exec G op o x).1) := by
  cases h with
  | ready h => exact .inl h
  | read h =>
    have hans : (Persist.exec G (.readFile height) o x).1 = .ok (x.files.lookup height) := if_pos hok
    rw [hans]
    exact .inr ⟨decide_eq_true rfl, h⟩
  | move h =>
    refine .inr ⟨decide_eq_true rfl, ?_⟩
    simpa only [Persist.exec, if_pos hok, Finmap.lookup_erase] using h
  | write h =>
    refine .inr ⟨decide_eq_true rfl, ?_⟩
    simpa only [Persist.exec, if_pos hok, Finmap.lookup_insert] using h

theorem due_of_waiting (hw : waiting x' = waiting x) (hf : x'.files.lookup height = x.files.lookup height ∨
    ∃ j ∈ waiting x, j.height = height) : due x' height = due x height := by
  rw [due, due, hw, fileBlock, fileBlock]
  rcases hf with hf | ⟨j, hj, hheight⟩
  · rw [hf]
  · cases hlast : lastBlock (waiting x) height with
    | none => exact absurd hheight (lastBlock_eq_none.mp hlast j hj)
    | some c => rfl

theorem exec_recv (o : PersistWorld) (x : PersistState) : exec G .recv o x = (none, x) ∨ ∃ job rest, x.job = none ∧
    x.queue = job :: rest ∧ exec G .recv o x = (some job, { x with queue := rest, job := some job }) := by
  cases hjob : x.job with
  | some job =>
    simp only [exec, hjob]
    exact .inl rfl
  | none =>
    cases hqueue : x.queue with
    | nil =>
      simp only [exec, hjob, hqueue]
      exact .inl rfl
    | cons job rest =>
      simp only [exec, hjob, hqueue]
      exact .inr ⟨job, rest, trivial, rfl, rfl⟩

theorem Writing.exec (h : Writing C E x (.ask op k)) (hok : o.diskOk)
    (hrange : ∀ j ∈ waiting x, j.height ≤ maxStoredHeight) :
    Writing C E (Persist.exec G op o x).2 (k (Persist.exec G op o x).1) ∧ WriterMove x (Persist.exec G op o x).2 := by
  cases h with
  | idle hp =>
    obtain hp | ⟨r, hp⟩ := hp
    · obtain ⟨rfl, hk⟩ := Program.ask.inj hp
      obtain rfl := eq_of_heq hk
      obtain heq | ⟨job, rest, hjob, hqueue, heq⟩ := exec_recv (G := G) o x
      · rw [heq]
        exact ⟨.idle (.inr ⟨.ok (), rfl⟩), fun _ => rfl, fun _ hj => hj, fun _ _ => rfl⟩
      · rw [heq]
        have hwaiting : waiting { x with queue := rest, job := some job } = waiting x := by
          simp [waiting, hjob, hqueue]
        have hsync := gives_sync (C := C) (E := E) (b := job.block) (x.files.lookup job.height)
          (hrange job (by simp [waiting, hqueue]))
        have hround : Leads job.height (fun file p => p = fetchSub ∧ file.bind (·.block) = some job.block)
            (x.files.lookup job.height) (do
              let _ ← (writeBlockJsonSync C E job.height job.block).attempt
              fetchSub : PersistCall Unit) := by
          refine gives_bind (gives_attempt hsync) fun file _ hr => .ready ⟨rfl, ?_⟩
          obtain ⟨-, -, rfl⟩ := hr
          rfl
        exact ⟨.holding rfl hround, fun height => due_of_waiting hwaiting (.inl rfl), fun j hj => hwaiting ▸ hj,
          fun _ _ => rfl⟩
    · cases hp
  | @holding job hjob h =>
    have hmem : job ∈ waiting x := by simp [waiting, hjob]
    rcases h.exec (G := G) hok with ⟨hsub, hblock⟩ | ⟨hop, hnext⟩
    · obtain ⟨rfl, hk⟩ := Program.ask.inj hsub
      obtain rfl := eq_of_heq hk
      have hwaiting : waiting x = job :: waiting (Persist.exec G .fetchSub o x).2 := by
        simp [waiting, Persist.exec, hjob]
      refine ⟨.idle (.inr ⟨.ok (), rfl⟩), fun height => ?_, fun j hj => ?_, fun height _ => rfl⟩
      · have hfile : fileBlock x job.height = some job.block := hblock
        rw [due, due, hwaiting, ← List.singleton_append, lastBlock_append, lastBlock_singleton, Option.or_assoc]
        congr 1
        split
        next heq => rw [← heq]; exact hfile
        next => rfl
      · rw [hwaiting]
        exact List.mem_cons_of_mem _ hj
    · obtain ⟨hheld, hqueue, hfiles⟩ := exec_onFile (G := G) hop o x
      have hwaiting : waiting (Persist.exec G op o x).2 = waiting x := by rw [waiting, hheld, hqueue]; rfl
      refine ⟨.holding (hheld.trans hjob) hnext, fun height => due_of_waiting hwaiting ?_, fun j hj => ?_,
        fun height hne => ?_⟩
      · by_cases hheight : height = job.height
        · exact .inr ⟨job, hmem, hheight.symm⟩
        · exact .inl (hfiles height hheight)
      · rwa [hwaiting] at hj
      · exact hfiles height (hne job hmem).symm

theorem StoresBlock.onFile {file : Option BlockText} (h : StoresBlock job file (.ask op k)) :
    op.onFile job.height := by
  cases h with
  | ready h =>
    obtain ⟨a, heq, -⟩ := h
    cases heq
  | _ => exact decide_eq_true rfl

theorem StoresBlock.exec (hnone : ∀ j ∈ waiting x, j.height ≠ job.height)
    (h : StoresBlock job (x.files.lookup job.height) (.ask op k)) (hok : o.diskOk) :
    Submitting C E (Persist.exec G op o x).2 job (k (Persist.exec G op o x).1) ∧
      SubmitMove job x (Persist.exec G op o x).2 := by
  obtain ⟨hheld, hqueue, hfiles⟩ := exec_onFile (G := G) h.onFile o x
  have hwaiting : waiting (Persist.exec G op o x).2 = waiting x := by rw [waiting, hheld, hqueue]; rfl
  rcases Leads.exec (G := G) h hok with ⟨a, heq, -⟩ | ⟨-, hnext⟩
  · cases heq
  · refine ⟨.direct (hwaiting ▸ hnone) hnext, fun height hne => due_of_waiting hwaiting (.inl (hfiles height hne)),
      fun j hj => .inl (hwaiting ▸ hj), hheld, fun j hj => hfiles _ (hnone j ?_)⟩
    simp [waiting, Option.mem_def.mp hj]

theorem Submitting.exec (h : Submitting C E x job (.ask op k)) (hok : o.diskOk)
    (hdirect : op.onFile job.height → Undisturbed C E x job) :
    Submitting C E (Persist.exec G op o x).2 job (k (Persist.exec G op o x).1) ∧
      SubmitMove job x (Persist.exec G op o x).2 := by
  have hrefl : SubmitMove job x x := ⟨fun _ _ => rfl, fun _ hj => .inl hj, rfl, fun _ _ => rfl⟩
  cases h with
  | unsent hsent hfull =>
    by_cases hsend : o.connected ∧ x.queue.length < G.queueCapacity
    · have heq : Persist.exec G (.trySend job) o x = (true, { x with queue := x.queue ++ [job] }) := if_pos hsend
      have hwaiting : waiting { x with queue := x.queue ++ [job] } = waiting x ++ [job] := by simp [waiting]
      have hdue : ∀ height, due { x with queue := x.queue ++ [job] } height =
          (if job.height = height then some job.block else none).or (due x height) := by
        intro height
        rw [due, due, hwaiting, lastBlock_append, lastBlock_singleton, Option.or_assoc]
        rfl
      rw [heq]
      refine ⟨.sent (by rw [hdue, if_pos rfl]; rfl) (.inl hsent), fun height hne => ?_, fun j hj => ?_, rfl,
        fun _ _ => rfl⟩
      · rw [hdue, if_neg hne.symm]
        rfl
      · simpa [hwaiting] using hj
    · have heq : Persist.exec G (.trySend job) o x = (false, x) := if_neg hsend
      rw [heq]
      exact ⟨.fresh hfull, hrefl⟩
  | fresh h =>
    have hundisturbed := hdirect (h none (by simp)).onFile
    exact StoresBlock.exec hundisturbed.none (h _ hundisturbed.same) hok
  | direct hnone h => exact h.exec hnone hok
  | sent hdue hp =>
    obtain hp | ⟨r, hp⟩ := hp
    · obtain ⟨rfl, hk⟩ := Program.ask.inj hp
      obtain rfl := eq_of_heq hk
      exact ⟨.sent hdue (.inr ⟨.ok (), rfl⟩), fun _ _ => rfl, fun _ hj => .inl hj, rfl, fun _ _ => rfl⟩
    · cases hp

theorem Submitting.frame (h : Submitting C E x job p) (hmove : WriterMove x x') : Submitting C E x' job p := by
  cases h with
  | unsent hsent hfull => exact .unsent hsent hfull
  | fresh h => exact .fresh h
  | direct hnone h =>
    refine .direct (fun j hj => hnone j (hmove.fewer j hj)) ?_
    rwa [hmove.files job.height hnone]
  | sent hdue hp => exact .sent ((hmove.due _).trans hdue) hp

theorem Writing.frame (h : Writing C E x p) (hmove : SubmitMove job x x') : Writing C E x' p := by
  cases h with
  | idle hp => exact .idle hp
  | @holding j hj h =>
    refine .holding (hmove.held.trans hj) ?_
    rwa [hmove.files j hj]

theorem Submitting.done {r : Except String Unit} (h : Submitting C E x job (.done r)) :
    due x job.height = some job.block := by
  cases h with
  | fresh h =>
    rcases h none (by simp) with ⟨a, -, hnone⟩
    cases hnone
  | direct hnone h =>
    rcases h with ⟨a, -, hblock⟩
    rw [due, lastBlock_eq_none.mpr hnone]
    exact hblock
  | sent hdue hp => exact hdue

end

section

variable {C E} {G : PersistConfig} {s s' : NodeState} {e : NodeEvent} {es past : List NodeEvent} {job : PersistJob}
  {req : PersistRequest} {i : Nat}

theorem ready_sync (h : job.height ≤ maxStoredHeight) :
    Ready C E job (writeBlockJsonSync C E job.height job.block) :=
  fun _ _ => (gives_sync _ h).mono fun _ _ hwritten => hwritten ▸ rfl

theorem program_submitting (x : PersistState) (hjob : job ∈ req.submission) (h : job.height ≤ maxStoredHeight) :
    Submitting C E x job (program C E G req) := by
  cases req with
  | write height b =>
    obtain rfl := Option.some.inj hjob
    by_cases hasync : G.asyncMode
    · rw [program, writeBlockJson, if_pos hasync]
      exact .unsent rfl (ready_sync h)
    · rw [program, writeBlockJson, if_neg hasync]
      exact .fresh (ready_sync h)
  | writeWithSource height b submitSource =>
    obtain rfl := Option.some.inj hjob
    exact .fresh fun _ => gives_withSource h submitSource
  | writer => cases hjob

/-- What holds at each point of an undisturbed run: the last submission for a height is due there, or still running. -/
structure Orderly (C : Crypto) (E : NodeEnv) (past : List NodeEvent) (s : NodeState) : Prop where
  apart : s.running.Pairwise fun a b => submits a ≠ submits b
  writing : ∀ task ∈ s.tasks, submits task.1 = false → Writing C E s.shared task.2
  submitting : ∀ task ∈ s.tasks, ∀ job ∈ task.1.submission, Submitting C E s.shared job task.2 ∧
    lastBlock (submissions past) job.height = some job.block ∧ job.height ≤ maxStoredHeight
  range : ∀ j ∈ waiting s.shared, j.height ≤ maxStoredHeight
  due : ∀ height b, lastBlock (submissions past) height = some b → due s.shared height = some b ∨
    ∃ req ∈ s.running, ∃ job ∈ req.submission, job.height = height

structure Fine (e : NodeEvent) : Prop where
  noCrash : e ≠ .crash
  diskOk : ∀ i o, e = .advance i o → o.diskOk
  inRange : ∀ req, e = .start req → ∀ job ∈ req.submission, job.height ≤ maxStoredHeight

theorem Served.fine (h : Served es) : ∀ e ∈ es, Fine e := by
  refine fun e he => ⟨fun heq => h.noCrash (heq ▸ he), fun i o heq => h.diskOk i o (heq ▸ he), fun req heq job hjob => ?_⟩
  exact h.inRange job (List.mem_filterMap.mpr ⟨e, he, by rw [heq]; exact hjob⟩)

theorem submits_ne_of_start (hseq : InSequence s (.start req)) (hmay : (machine C E G).mayStart s.running req) :
    ∀ r ∈ s.running, submits r ≠ submits req := by
  intro r hr
  have hwriter := of_decide_eq_true hmay
  cases req with
  | writer =>
    cases r with
    | writer => exact absurd hr (hwriter rfl)
    | _ => exact Bool.noConfusion
  | write height b =>
    rw [hseq rfl r hr]
    exact Bool.noConfusion
  | writeWithSource height b submitSource =>
    rw [hseq rfl r hr]
    exact Bool.noConfusion

theorem lastBlock_start (past : List NodeEvent) (req : PersistRequest) (height : Nat) :
    lastBlock (submissions (past ++ [.start req])) height =
      (lastBlock req.submission.toList height).or (lastBlock (submissions past) height) := by
  have hlast : submissions [.start req] = req.submission.toList := by
    cases hreq : req.submission with
    | none => simp [submissions, hreq]
    | some job => simp [submissions, hreq]
  rw [submissions, List.filterMap_append, lastBlock_append]
  exact congrArg (fun jobs => (lastBlock jobs height).or _) hlast

theorem Orderly.start (hs : Orderly C E past s) (hfine : Fine (.start req))
    (hapart : ∀ r ∈ s.running, submits r ≠ submits req) :
    Orderly C E (past ++ [.start req]) ⟨s.shared, s.tasks ++ [(req, (machine C E G).program req)]⟩ := by
  have hrunning : (⟨s.shared, s.tasks ++ [(req, (machine C E G).program req)]⟩ : NodeState).running =
      s.running ++ [req] := List.map_append
  refine ⟨?_, fun task hmem hnot => ?_, fun task hmem job hjob => ?_, hs.range, fun height b hlast => ?_⟩
  · rw [hrunning, List.pairwise_append]
    refine ⟨hs.apart, List.pairwise_singleton _ _, fun a ha b hb => ?_⟩
    rw [List.mem_singleton.mp hb]
    exact hapart a ha
  · rcases List.mem_append.mp hmem with hold | hnew
    · exact hs.writing task hold hnot
    · obtain rfl := List.mem_singleton.mp hnew
      cases req with
      | writer => exact .idle (.inl rfl)
      | _ => cases hnot
  · rcases List.mem_append.mp hmem with hold | hnew
    · have hne := hapart task.1 (List.mem_map_of_mem hold)
      have hnone : req.submission = none := by simpa [submits, Option.mem_def.mp hjob] using hne
      obtain ⟨hsub, hlast, hrange⟩ := hs.submitting task hold job hjob
      refine ⟨hsub, ?_, hrange⟩
      rw [lastBlock_start, hnone]
      exact hlast
    · obtain rfl := List.mem_singleton.mp hnew
      have hrange := hfine.inRange req rfl job hjob
      refine ⟨program_submitting _ hjob hrange, ?_, hrange⟩
      rw [lastBlock_start, Option.mem_def.mp hjob, Option.toList_some, lastBlock_singleton, if_pos rfl]
      rfl
  · rw [lastBlock_start] at hlast
    cases hnew : lastBlock req.submission.toList height with
    | none =>
      rw [hnew] at hlast
      rw [hrunning]
      exact (hs.due height b hlast).imp_right fun ⟨r, hr, h⟩ => ⟨r, List.mem_append_left _ hr, h⟩
    | some b' =>
      have hsome : ¬∀ job ∈ req.submission.toList, job.height ≠ height := by
        rw [← lastBlock_eq_none, hnew]
        exact Option.some_ne_none b'
      push Not at hsome
      obtain ⟨job, hjob, hheight⟩ := hsome
      rw [hrunning]
      exact .inr ⟨req, List.mem_append_right _ (List.mem_singleton_self _), job, Option.mem_toList.mp hjob, hheight⟩

theorem Orderly.ask {o : PersistWorld} {op : PersistOp} {k : op.Answer → PersistProgram} (hs : Orderly C E past s)
    (htask : s.tasks[i]? = some (req, .ask op k)) (hok : o.diskOk)
    (hdirect : ∀ job ∈ req.submission, op.onFile job.height → Undisturbed C E s.shared job) :
    Orderly C E past ⟨(exec G op o s.shared).2, s.tasks.set i (req, k (exec G op o s.shared).1)⟩ := by
  have hmem := List.mem_of_getElem? htask
  have hrunning : (⟨(exec G op o s.shared).2, s.tasks.set i (req, k (exec G op o s.shared).1)⟩ : NodeState).running =
      s.running :=
    Machine.running_set htask _
  have hset : ∀ task ∈ s.tasks.set i (req, k (exec G op o s.shared).1),
      task = (req, k (exec G op o s.shared).1) ∨ task ∈ s.tasks ∧ submits req ≠ submits task.1 := fun task hmem =>
    Machine.mem_set_apart (S := fun a b => submits a.1 ≠ submits b.1) (fun _ _ h => h.symm)
      (List.pairwise_map.mp hs.apart) htask hmem
  cases hreq : req.submission with
  | none =>
    have hwriter : submits req = false := by rw [submits, hreq]; rfl
    obtain ⟨hself, hmove⟩ := (hs.writing _ hmem hwriter).exec (G := G) hok hs.range
    refine ⟨hrunning ▸ hs.apart, fun task htask hnot => ?_, fun task htask job hjob => ?_,
      fun j hj => hs.range j (hmove.fewer j hj), fun height b hlast => ?_⟩
    · rcases hset task htask with rfl | ⟨-, hne⟩
      · exact hself
      · exact absurd (hwriter.trans hnot.symm) hne
    · rcases hset task htask with rfl | ⟨hold, -⟩
      · rw [hreq] at hjob
        cases hjob
      · exact (hs.submitting task hold job hjob).imp_left fun h => h.frame hmove
    · rw [hrunning, hmove.due]
      exact hs.due height b hlast
  | some job =>
    have hsubmits : submits req := by rw [submits, hreq]; rfl
    obtain ⟨hsub, hlast, hrange⟩ := hs.submitting _ hmem job hreq
    obtain ⟨hself, hmove⟩ := hsub.exec (G := G) hok (hdirect job hreq)
    refine ⟨hrunning ▸ hs.apart, fun task htask hnot => ?_, fun task htask job' hjob => ?_, fun j hj => ?_,
      fun height b hlast => ?_⟩
    · rcases hset task htask with rfl | ⟨hold, -⟩
      · exact Bool.noConfusion (hnot.symm.trans hsubmits)
      · exact (hs.writing task hold hnot).frame hmove
    · rcases hset task htask with rfl | ⟨-, hne⟩
      · obtain rfl := Option.some.inj (hreq.symm.trans hjob)
        exact ⟨hself, hlast, hrange⟩
      · refine absurd ?_ hne
        rw [hsubmits, submits, Option.mem_def.mp hjob]
        rfl
    · rcases hmove.more j hj with hj | rfl
      · exact hs.range j hj
      · exact hrange
    · rw [hrunning]
      by_cases hheight : height = job.height
      · exact .inr ⟨req, List.mem_map_of_mem hmem, job, hreq, hheight.symm⟩
      · rw [hmove.due height hheight]
        exact hs.due height b hlast

theorem Orderly.done {r : Except String Unit} (hs : Orderly C E past s) (htask : s.tasks[i]? = some (req, .done r)) :
    Orderly C E past { s with tasks := s.tasks.eraseIdx i } := by
  have hrunning : System.running { s with tasks := s.tasks.eraseIdx i } = s.running.eraseIdx i :=
    List.eraseIdx_map _ _ _ |>.symm
  refine ⟨hrunning ▸ hs.apart.sublist (List.eraseIdx_sublist _ _),
    fun task h => hs.writing task (List.mem_of_mem_eraseIdx h),
    fun task h => hs.submitting task (List.mem_of_mem_eraseIdx h), hs.range, fun height b hlast => ?_⟩
  rcases hs.due height b hlast with hdue | ⟨req', hreq', job, hjob, rfl⟩
  · exact .inl hdue
  · obtain ⟨j, hj, hget⟩ := List.getElem_of_mem hreq'
    by_cases hij : j = i
    · subst hij
      have htask' : s.running[j]? = some req := by rw [System.running, List.getElem?_map, htask]; rfl
      rw [List.getElem?_eq_getElem hj, hget] at htask'
      obtain rfl := Option.some.inj htask'
      obtain ⟨hsub, hlast', -⟩ := hs.submitting _ (List.mem_of_getElem? htask) job hjob
      exact .inl (hsub.done.trans (hlast'.symm.trans hlast))
    · refine .inr ⟨req', ?_, job, hjob, rfl⟩
      rw [hrunning, List.mem_eraseIdx_iff_getElem]
      exact ⟨j, hj, hij, hget⟩

theorem Orderly.step (hs : Orderly C E past s) (hfine : Fine e) (hseq : InSequence s e)
    (hdirect : DirectUndisturbed C E s e) (h : (machine C E G).step s e = some s') :
    Orderly C E (past ++ [e]) s' := by
  have hpast : ∀ i o, submissions (past ++ [.advance i o]) = submissions past := by simp [submissions]
  obtain ⟨req, rfl, hmay, rfl⟩ | ⟨i, o, req, op, k, rfl, htask, rfl⟩ | ⟨i, o, req, r, rfl, htask, rfl⟩ | ⟨rfl, rfl⟩ :=
    Machine.step_cases h
  · exact hs.start hfine (submits_ne_of_start hseq hmay)
  · have hask := hdirect _ (Machine.asks_of_ask htask)
    obtain ⟨happart, hwriting, hsubmitting, hrange, hdue⟩ := hs.ask (G := G) htask (hfine.diskOk i o rfl) hask
    exact ⟨happart, hwriting, hpast i o ▸ hsubmitting, hrange, hpast i o ▸ hdue⟩
  · obtain ⟨happart, hwriting, hsubmitting, hrange, hdue⟩ := hs.done htask
    exact ⟨happart, hwriting, hpast i o ▸ hsubmitting, hrange, hpast i o ▸ hdue⟩
  · exact absurd rfl hfine.noCrash

/-- Every file holds the last block that was submitted for its height, once all is written. -/
theorem file_last_submission (files : FinMap Nat BlockText) (hserved : Served es)
    (hseq : (machine C E G).Along InSequence ⟨{ files }, []⟩ es)
    (hdirect : (machine C E G).Along (DirectUndisturbed C E) ⟨{ files }, []⟩ es)
    (hrun : (machine C E G).run ⟨{ files }, []⟩ es = some s) (hdrained : Drained s) (height : Nat) (b : Block)
    (hlast : lastBlock (submissions es) height = some b) : fileBlock s.shared height = some b := by
  have hinit : Orderly C E [] ⟨{ files }, []⟩ :=
    ⟨List.Pairwise.nil, fun task h => absurd h List.not_mem_nil, fun task h => absurd h List.not_mem_nil,
      fun j h => absurd h List.not_mem_nil, fun height b h => nomatch h⟩
  have halong := (Machine.along_and_of_forall hserved.fine).mpr (hseq.and hdirect)
  have hend := halong.history (I := Orderly C E)
    (fun _ _ _ _ hs h => hs.step (G := G) h.1 h.2.1 h.2.2) hinit hrun
  rcases hend.due height b hlast with hdue | ⟨req, hreq, -⟩
  · rwa [due, hdrained.waiting] at hdue
  · rw [System.running, hdrained.tasks] at hreq
    cases hreq

/-- The writer has written the queued block when another block for its height is written past the queue. -/
def orderedRun : List NodeEvent :=
  [.start (.write 1 (bareBlock 0)), go 0, go 0, go 0, .start .writer, go 0, go 0, go 0, go 0, go 0,
    .start (.writeWithSource 1 (bareBlock 1) none), go 0, go 0, go 0, go 0, go 0, go 0, go 0]

theorem file_last_submission_ordered :
    ∃ s, (machine shaCrypto devnetNode asyncWriter).run ⟨{}, []⟩ orderedRun = some s ∧
      fileBlock s.shared 1 = some (bareBlock 1) := by
  have hend : ((machine shaCrypto devnetNode asyncWriter).run ⟨{}, []⟩ orderedRun).any
      (fun s => s.tasks.isEmpty && (waiting s.shared).isEmpty) := by decide +kernel
  obtain ⟨s, hrun, hempty⟩ := (Option.any_eq_true _ _).mp hend
  rw [Bool.and_eq_true, List.isEmpty_iff, List.isEmpty_iff] at hempty
  refine ⟨s, hrun, ?_⟩
  refine file_last_submission ∅ ⟨?_, ?_, by decide⟩ (by decide +kernel) (by decide +kernel) hrun
    ⟨hempty.1, hempty.2⟩ 1 (bareBlock 1) (by decide)
  · simp [orderedRun, go]
  · simp +contextual [orderedRun, go]

/-- A block is queued, another block for its height is written past the queue, and then the writer writes the first. -/
def passedRun : List NodeEvent :=
  [.start (.write 1 (bareBlock 0)), go 0, go 0, go 0,
    .start (.writeWithSource 1 (bareBlock 1) none), go 0, go 0, go 0, go 0, go 0, go 0,
    .start .writer, go 0, go 0, go 0, go 0, go 0, go 0]

theorem file_first_submission :
    ((machine shaCrypto devnetNode asyncWriter).run ⟨{}, []⟩ passedRun).map
      (fun s => (s.tasks.length, waiting s.shared, fileBlock s.shared 1)) = some (0, [], some (bareBlock 0)) ∧
    lastBlock (submissions passedRun) 1 = some (bareBlock 1) := by
  decide +kernel

end

end Persist

end IriumConsensus
