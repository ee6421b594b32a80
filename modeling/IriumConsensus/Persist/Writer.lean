import IriumConsensus.Lib.Tasks
import IriumConsensus.Nodes
import IriumConsensus.Persist.BlockFile

namespace IriumConsensus

open ByteCodec FinMaps Tasks

/-- What the text of a block file says. A text that does not parse names no block. -/
structure BlockText where
  block : Option Block
  submitSource : Option String
  deriving DecidableEq

structure PersistJob where
  height : Nat
  block : Block
  deriving DecidableEq

/-- The files by height, the channel to the writer, the job that the writer has taken from it and not counted off,
and the counter of the queue. -/
structure PersistState where
  files : FinMap Nat BlockText := ∅
  queue : List PersistJob := []
  job : Option PersistJob := none
  queueLen : Nat := 0

inductive PersistOp where
  | readFile (height : Nat)
  | quarantine (height : Nat)
  | writeFile (height : Nat) (text : BlockText)
  | trySend (job : PersistJob)
  | fetchAdd
  | recv
  | fetchSub
  deriving DecidableEq

def PersistOp.onFile (height : Nat) : PersistOp → Bool
  | .readFile h | .quarantine h | .writeFile h _ => h = height
  | _ => false

def PersistOp.Answer : PersistOp → Type
  | .readFile _ => Except String (Option BlockText)
  | .writeFile _ _ => Except String Unit
  | .trySend _ => Bool
  | .recv => Option PersistJob
  | _ => Unit

inductive PersistRequest where
  | write (height : Nat) (block : Block)
  | writeWithSource (height : Nat) (block : Block) (submitSource : Option String)
  | writer
  deriving DecidableEq

def PersistRequest.submission : PersistRequest → Option PersistJob
  | .write height block => some ⟨height, block⟩
  | .writeWithSource height block _ => some ⟨height, block⟩
  | .writer => none

/-- What the world decides of an operation: whether the disk serves it, and whether the writer thread lives. -/
structure PersistWorld where
  diskOk : Bool
  connected : Bool

structure PersistConfig where
  asyncMode : Bool
  queueCap : Option Nat

def PersistConfig.queueCapacity (G : PersistConfig) : Nat := (G.queueCap.map fun v => max 64 (min v 65536)).getD 4096

abbrev PersistCall := Handler PersistOp PersistOp.Answer String
abbrev PersistProgram := Program PersistOp PersistOp.Answer (Except String Unit)

namespace Persist

variable (C : Crypto) (E : NodeEnv) (G : PersistConfig)

def usizeModulus : Nat := 2 ^ 64

/-- The one writer waits on the channel while it holds no job. -/
def exec (op : PersistOp) (o : PersistWorld) (x : PersistState) : op.Answer × PersistState :=
  match op with
  | .readFile height => (if o.diskOk then .ok (x.files.lookup height) else .error "io error", x)
  | .quarantine height => ((), if o.diskOk then { x with files := x.files.erase height } else x)
  | .writeFile height text =>
    if o.diskOk then (.ok (), { x with files := x.files.insert height text }) else (.error "io error", x)
  | .trySend job =>
    if o.connected ∧ x.queue.length < G.queueCapacity then (true, { x with queue := x.queue ++ [job] }) else (false, x)
  | .fetchAdd => ((), { x with queueLen := (x.queueLen + 1) % usizeModulus })
  | .recv =>
    match x.job, x.queue with
    | none, job :: rest => (some job, { x with queue := rest, job := some job })
    | _, _ => (none, x)
  | .fetchSub => ((), { x with job := none, queueLen := (x.queueLen + (usizeModulus - 1)) % usizeModulus })

def readBlockJson (height : Nat) : PersistCall (Option BlockText) :=
  .ask (.readFile height) fun r => .done r

def quarantine (height : Nat) : PersistCall Unit := .ask (.quarantine height) fun _ => .done (.ok ())
def trySend (job : PersistJob) : PersistCall Bool := .ask (.trySend job) fun sent => .done (.ok sent)
def fetchAdd : PersistCall Unit := .ask .fetchAdd fun _ => .done (.ok ())
def recv : PersistCall (Option PersistJob) := .ask .recv fun job => .done (.ok job)
def fetchSub : PersistCall Unit := .ask .fetchSub fun _ => .done (.ok ())

/-- The text holds a block with the header hash of `b`. -/
def matchingHeader (height : Nat) (b : Block) (text : BlockText) : Bool :=
  text.block.any fun existing => existing.header.hashForHeight C E height = b.header.hashForHeight C E height

def maybeQuarantineExistingBlock (height : Nat) (b : Block) : PersistCall Unit := do
  match ← (readBlockJson height).attempt with
  | .ok (some existing) => if matchingHeader C E height b existing then pure () else quarantine height
  | _ => pure ()

def writeBlockJsonString (height : Nat) (text : BlockText) : PersistCall Unit :=
  .ask (.writeFile height text) fun r => .done r

def writeBlockJsonSync (height : Nat) (b : Block) : PersistCall Unit := do
  Handler.failIf (maxStoredHeight < height) "height out of range"
  maybeQuarantineExistingBlock C E height b
  writeBlockJsonString height ⟨some b, none⟩

/-- The text that is there now; where the file has gone meanwhile, the block is written once more. -/
def currentText (height : Nat) (b : Block) : PersistCall BlockText := do
  match ← readBlockJson height with
  | some text => pure text
  | none => do
    writeBlockJsonSync C E height b
    let text ← readBlockJson height
    pure (text.getD ⟨none, none⟩)

def writeBlockJsonWithSource (height : Nat) (b : Block) (submitSource : Option String) : PersistCall Unit := do
  Handler.failIf (maxStoredHeight < height) "height out of range"
  let existing ← readBlockJson height
  (if existing.any (matchingHeader C E height b) then pure () else writeBlockJsonSync C E height b : PersistCall Unit)
  let value ← currentText C E height b
  writeBlockJsonString height { value with submitSource := submitSource <|> value.submitSource }

/-- A submission that finds the queue full, or the writer gone, writes the file itself. -/
def writeBlockJson (height : Nat) (b : Block) : PersistCall Unit :=
  if G.asyncMode then do
    if ← trySend ⟨height, b⟩ then fetchAdd else writeBlockJsonSync C E height b
  else writeBlockJsonSync C E height b

def writerRound : PersistCall Unit := do
  match ← recv with
  | none => pure ()
  | some job =>
    let _ ← (writeBlockJsonSync C E job.height job.block).attempt
    fetchSub

def program : PersistRequest → PersistCall Unit
  | .write height block => writeBlockJson C E G height block
  | .writeWithSource height block submitSource => writeBlockJsonWithSource C E height block submitSource
  | .writer => writerRound C E

def machine : Machine PersistState PersistRequest PersistWorld PersistOp PersistOp.Answer (Except String Unit) where
  program := program C E G
  mayStart running req := decide (req = .writer → .writer ∉ running)
  exec := exec G

abbrev NodeState := System PersistState PersistRequest PersistOp PersistOp.Answer (Except String Unit)
abbrev NodeEvent := Event PersistRequest PersistWorld

/-- The tasks that have put a job into the channel and are about to raise the counter for it. -/
def adding (task : PersistRequest × PersistProgram) : Bool := task.2.next = some .fetchAdd

def submitting (s : NodeState) : Nat := s.tasks.countP adding

def unfinished (x : PersistState) : Nat := x.queue.length + x.job.toList.length

def countsOff (s : NodeState) (e : NodeEvent) : Bool := (s.asks e).any fun ask => ask.2.1 = .fetchSub

def CounterExact (s : NodeState) : Prop := s.shared.queueLen + submitting s = unfinished s.shared

section

/-- A submission raises the counter right after it has sent a job, and only then. -/
def submitObserver : Observer PersistOp PersistOp.Answer Bool where
  may sent op := match op with
    | .fetchAdd => sent
    | .recv | .fetchSub => False
    | _ => sent = false
  next _ op ans := match op with
    | .trySend _ => ans
    | _ => false

/-- The writer counts a job off once for each that it has taken. -/
def writerObserver : Observer PersistOp PersistOp.Answer Bool where
  may taken op := match op with
    | .recv => taken = false
    | .trySend _ | .fetchAdd => False
    | _ => taken
  next taken op ans := match op with
    | .recv => Option.isSome (α := PersistJob) ans
    | .fetchSub => false
    | _ => taken

variable {C E G} {q sent taken : Bool} {x : PersistState} {req : PersistRequest} {p : PersistProgram} {height : Nat} {b : Block}
  {op : PersistOp} {k : op.Answer → PersistProgram} {s s' : NodeState} {e : NodeEvent}

theorem writeBlockJsonSync_obeys {O : Observer PersistOp PersistOp.Answer Bool}
    (hfile : ∀ op : PersistOp, op.onFile height → O.may q op ∧ ∀ ans, O.next q op ans = q) :
    Obeys O (fun q' _ => q' = q) q (writeBlockJsonSync C E height b) := by
  obtain ⟨hread, hread'⟩ := hfile (.readFile height) (decide_eq_true rfl)
  have hmove : Obeys O (fun q' _ => q' = q) q (maybeQuarantineExistingBlock C E height b) := by
    refine obeys_bind.mpr (obeys_attempt.mpr ⟨hread, fun ans => ?_⟩)
    rw [hread' ans]
    rcases ans with e | _ | text
    · exact rfl
    · exact rfl
    · exact obeys_ite rfl (hfile (.quarantine height) (decide_eq_true rfl))
  exact obeys_failIf.keep fun _ => hmove.keep fun _ => hfile (.writeFile height _) (decide_eq_true rfl)

/-- What the observers know of a task, and that a writer with a job has left it in the state. -/
def Staged (x : PersistState) (req : PersistRequest) (p : PersistProgram) : Prop :=
  match req with
  | .writer => ∃ taken, Obeys writerObserver (fun q _ => q = false) taken p ∧ (taken → x.job.isSome)
  | _ => ∃ sent, Obeys submitObserver (fun q _ => q = false) sent p

theorem submitObserver_file (height : Nat) (op : PersistOp) (h : op.onFile height) :
    submitObserver.may false op ∧ ∀ ans, submitObserver.next false op ans = false := by
  cases op <;> first | exact ⟨rfl, fun _ => rfl⟩ | cases h

theorem writerObserver_file (height : Nat) (op : PersistOp) (h : op.onFile height) :
    writerObserver.may true op ∧ ∀ ans, writerObserver.next true op ans := by
  cases op <;> first | exact ⟨rfl, fun _ => rfl⟩ | cases h

theorem writeBlockJson_obeys : Obeys submitObserver (fun q _ => q = false) false (writeBlockJson C E G height b) := by
  have hsync := writeBlockJsonSync_obeys (C := C) (E := E) (b := b) (submitObserver_file height)
  refine obeys_ite (obeys_bind.mpr ⟨rfl, fun sent => ?_⟩) hsync
  cases sent with
  | false => exact hsync
  | true => exact ⟨rfl, fun _ => rfl⟩

theorem writeBlockJsonWithSource_obeys (submitSource : Option String) :
    Obeys submitObserver (fun q _ => q = false) false (writeBlockJsonWithSource C E height b submitSource) := by
  have hsync := writeBlockJsonSync_obeys (C := C) (E := E) (b := b) (submitObserver_file height)
  have hread : Obeys submitObserver (fun q _ => q = false) false (readBlockJson height) := ⟨rfl, fun _ => rfl⟩
  have hcurrent : Obeys submitObserver (fun q _ => q = false) false (currentText C E height b) := by
    refine hread.keep fun text => ?_
    cases text with
    | some text => exact rfl
    | none => exact hsync.keep fun _ => hread.keep fun _ => rfl
  exact obeys_failIf.keep fun _ => hread.keep fun existing => Obeys.keep (obeys_ite rfl hsync) fun _ =>
    hcurrent.keep fun _ => ⟨rfl, fun _ => rfl⟩

theorem writerRound_obeys : Obeys writerObserver (fun q _ => q = false) false (writerRound C E) := by
  refine obeys_bind.mpr ⟨rfl, fun job => ?_⟩
  cases job with
  | none => exact rfl
  | some job =>
    have hsync := writeBlockJsonSync_obeys (C := C) (E := E) (b := job.block) (writerObserver_file job.height)
    refine obeys_bind.mpr (obeys_attempt.mpr (hsync.mono fun q _ hq => ?_))
    rw [hq]
    exact ⟨rfl, fun _ => rfl⟩

theorem program_staged (x : PersistState) (req : PersistRequest) : Staged x req (program C E G req) := by
  cases req with
  | write height b => exact ⟨false, writeBlockJson_obeys⟩
  | writeWithSource height b submitSource => exact ⟨false, writeBlockJsonWithSource_obeys submitSource⟩
  | writer => exact ⟨false, writerRound_obeys, by simp⟩

def Apart (a b : PersistRequest) : Prop := ¬(a = .writer ∧ b = .writer)

theorem adding_submit (h : Obeys submitObserver (fun q _ => q = false) sent p) :
    adding (req, p) = sent := by
  cases p with
  | done r => simp [adding, Program.next, show sent = false from h]
  | ask op k =>
    have hmay := h.1
    cases op <;> simp_all [adding, Program.next, submitObserver]

theorem adding_writer (h : Obeys writerObserver (fun q _ => q = false) taken p) :
    adding (req, p) = false := by
  cases p with
  | done r => simp [adding, Program.next]
  | ask op k =>
    have hmay := h.1
    cases op <;> simp_all [adding, Program.next, writerObserver]

/-- The channel is within its capacity, one writer runs at most, and each task is at a stage of its program. -/
abbrev InStages (G : PersistConfig) (s : NodeState) : Prop :=
  Machine.Relied (fun x => x.queue.length ≤ G.queueCapacity) Apart Staged s

theorem exec_job (o : PersistWorld) (x : PersistState) (h : op ≠ .recv) (h' : op ≠ .fetchSub) :
    (exec G op o x).2.job = x.job := by
  cases op <;> simp_all [exec, apply_ite]

theorem exec_queue_le (op : PersistOp) (o : PersistWorld) (hx : x.queue.length ≤ G.queueCapacity) :
    (exec G op o x).2.queue.length ≤ G.queueCapacity := by
  cases op with
  | trySend job =>
    simp only [exec]
    split
    next h =>
      rw [List.length_append, List.length_singleton]
      exact h.2
    next => exact hx
  | recv =>
    simp only [exec]
    split
    next hq =>
      rw [hq, List.length_cons] at hx
      exact (Nat.le_succ _).trans hx
    next => exact hx
  | _ => simpa [exec, apply_ite] using hx

theorem Staged.not_recv (h : Staged x req (.ask op k)) (hreq : req ≠ .writer) : op ≠ .recv ∧ op ≠ .fetchSub := by
  have hmay : ∃ sent, submitObserver.may sent op := by
    cases req with
    | writer => exact absurd rfl hreq
    | write height b => exact h.imp fun _ h => h.1
    | writeWithSource height b submitSource => exact h.imp fun _ h => h.1
  obtain ⟨sent, hmay⟩ := hmay
  constructor <;> rintro rfl <;> exact hmay

theorem Staged.after (o : PersistWorld) (h : Staged x req (.ask op k)) :
    Staged (Persist.exec G op o x).2 req (k (Persist.exec G op o x).1) := by
  cases req with
  | write height b => exact h.imp' (submitObserver.next · op _) fun _ h => h.2 _
  | writeWithSource height b submitSource => exact h.imp' (submitObserver.next · op _) fun _ h => h.2 _
  | writer =>
    obtain ⟨taken, ⟨hmay, hk⟩, hjob⟩ := h
    refine ⟨_, hk _, fun hnext => ?_⟩
    cases op with
    | recv =>
      simp only [Persist.exec, writerObserver] at hnext ⊢
      split at hnext <;> simp_all
    | fetchSub => simp [writerObserver] at hnext
    | trySend job => exact hmay.elim
    | fetchAdd => exact hmay.elim
    | _ => rw [exec_job o x (by simp) (by simp)]; exact hjob hmay

theorem InStages.step (hs : InStages G s) (h : (machine C E G).step s e = some s') : InStages G s' := by
  refine Machine.Relied.step (fun a b hab hba => hab hba.symm) (fun running req hreq r hr hboth => ?_) program_staged
    (fun x o req op k hx hreq => ⟨exec_queue_le op o hx, hreq.after o, fun req' p happart hp => ?_⟩) hs h
  · exact of_decide_eq_true hreq hboth.2 (hboth.1 ▸ hr)
  · cases req' with
    | write height b => exact hp
    | writeWithSource height b submitSource => exact hp
    | writer =>
      obtain ⟨hrecv, hsub⟩ := hreq.not_recv fun hw => happart ⟨hw, rfl⟩
      obtain ⟨taken, hob, hjob⟩ := hp
      exact ⟨taken, hob, fun ht => (exec_job o x hrecv hsub).symm ▸ hjob ht⟩

theorem queueCapacity_le (G : PersistConfig) : G.queueCapacity ≤ 65536 := by
  unfold PersistConfig.queueCapacity
  cases G.queueCap with
  | none => decide
  | some v => simp only [Option.map_some, Option.getD_some]; omega

theorem submit_balance (o : PersistWorld) (h : Obeys submitObserver (fun q _ => q = false) sent (.ask op k))
    (hlen : x.queueLen + 1 < usizeModulus) :
    (exec G op o x).2.queueLen + (if adding (req, k (exec G op o x).1) then 1 else 0) + unfinished x =
      x.queueLen + (if adding (req, .ask op k) then 1 else 0) + unfinished (exec G op o x).2 := by
  rw [adding_submit h, adding_submit (h.2 _)]
  have hmay := h.1
  cases op with
  | trySend job =>
    obtain rfl : sent = false := hmay
    by_cases hsend : o.connected ∧ x.queue.length < G.queueCapacity
    · simp [exec, hsend, submitObserver, unfinished]
      omega
    · simp [exec, hsend, submitObserver]
  | fetchAdd =>
    obtain rfl : sent := hmay
    simp [exec, submitObserver, unfinished, Nat.mod_eq_of_lt hlen]
  | recv => exact hmay.elim
  | fetchSub => exact hmay.elim
  | _ =>
    obtain rfl : sent = false := hmay
    simp [exec, submitObserver, unfinished, apply_ite]

theorem writer_balance (o : PersistWorld) (h : Obeys writerObserver (fun q _ => q = false) taken (.ask op k))
    (hjob : taken → x.job.isSome) (hlen : x.queueLen < usizeModulus)
    (hsub : op = .fetchSub → x.queueLen ≠ 0) :
    (exec G op o x).2.queueLen + (if adding (req, k (exec G op o x).1) then 1 else 0) + unfinished x =
      x.queueLen + (if adding (req, .ask op k) then 1 else 0) + unfinished (exec G op o x).2 := by
  rw [adding_writer h, adding_writer (h.2 _)]
  have hmay := h.1
  cases op with
  | recv =>
    cases hjob : x.job <;> cases hqueue : x.queue <;> simp [exec, unfinished, hjob, hqueue]
  | fetchSub =>
    obtain ⟨job, hsome⟩ := Option.isSome_iff_exists.mp (hjob hmay)
    have hpos := hsub rfl
    have hcount : (x.queueLen + (usizeModulus - 1)) % usizeModulus = x.queueLen - 1 := by
      rw [show x.queueLen + (usizeModulus - 1) = x.queueLen - 1 + usizeModulus by omega, Nat.add_mod_right]
      exact Nat.mod_eq_of_lt (by omega)
    simp [exec, unfinished, hsome, hcount]
    omega
  | trySend job => exact hmay.elim
  | fetchAdd => exact hmay.elim
  | _ => simp [exec, unfinished, apply_ite]

theorem program_not_adding (req : PersistRequest) : adding (req, program C E G req) = false := by
  cases req with
  | write height b => exact adding_submit writeBlockJson_obeys
  | writeWithSource height b submitSource => exact adding_submit (writeBlockJsonWithSource_obeys submitSource)
  | writer => exact adding_writer writerRound_obeys

theorem CounterExact.queueLen_lt (hs : InStages G s) (hx : CounterExact s) :
    s.shared.queueLen + 1 < usizeModulus := by
  have hqueue := hs.sound.trans (queueCapacity_le G)
  have hjob : s.shared.job.toList.length ≤ 1 := by cases s.shared.job <;> simp
  have hmod : 65538 < usizeModulus := by decide
  simp only [CounterExact, unfinished] at hx
  omega

theorem CounterExact.step (hs : InStages G s) (hx : CounterExact s) (hcrash : e ≠ .crash)
    (hsub : countsOff s e → s.shared.queueLen ≠ 0) (h : (machine C E G).step s e = some s') :
    CounterExact s' := by
  have hlen := hx.queueLen_lt hs
  have hshared := Machine.step_shared h
  obtain ⟨hnone, hcount⟩ | ⟨req, op, o, k, hasks, hmem, hcount⟩ :=
    Machine.step_countP adding program_not_adding (fun _ _ => rfl) hcrash h
  · obtain ⟨-, heq⟩ | ⟨req, op, o, hasks, -⟩ := hshared
    · rwa [CounterExact, submitting, heq, hcount]
    · exact absurd (hnone.symm.trans hasks) (by simp)
  · obtain ⟨hnone, -⟩ | ⟨req', op', o', hasks', heq⟩ := hshared
    · exact absurd (hasks.symm.trans hnone) (by simp)
    · obtain ⟨rfl, hrest⟩ := Prod.mk.inj (Option.some.inj (hasks.symm.trans hasks'))
      obtain ⟨rfl, rfl⟩ := Prod.mk.inj hrest
      have hexec : (machine C E G).exec = exec G := rfl
      rw [hexec] at hcount heq
      have hbalance : (exec G op o s.shared).2.queueLen + (if adding (req, k (exec G op o s.shared).1) then 1 else 0) +
          unfinished s.shared = s.shared.queueLen + (if adding (req, .ask op k) then 1 else 0) +
            unfinished (exec G op o s.shared).2 := by
        have hstage := hs.law _ hmem
        cases req with
        | write height b => exact hstage.elim fun sent h => submit_balance o h hlen
        | writeWithSource height b submitSource => exact hstage.elim fun sent h => submit_balance o h hlen
        | writer =>
          obtain ⟨taken, hob, hjob⟩ := hstage
          exact writer_balance o hob hjob (by omega) fun hop => hsub (by simp [countsOff, hasks, hop])
      rw [CounterExact, submitting] at hx ⊢
      rw [heq]
      omega

def CounterLaw (s : NodeState) (e : NodeEvent) : Prop :=
  CounterExact s ∧ (countsOff s e → s.shared.queueLen ≠ 0)

/-- The writer counts a job off while fewer submissions have still to raise the counter than there are jobs. -/
def RaisedInTime (s : NodeState) (e : NodeEvent) : Prop := countsOff s e → submitting s < unfinished s.shared

theorem counter_law_iff (files : FinMap Nat BlockText) {es : List NodeEvent} (hcrash : .crash ∉ es) :
    (machine C E G).Along CounterLaw ⟨{ files }, []⟩ es ↔ (machine C E G).Along RaisedInTime ⟨{ files }, []⟩ es := by
  have hes : ∀ e ∈ es, e ≠ .crash := fun e he heq => hcrash (heq ▸ he)
  rw [← Machine.along_and_of_forall hes, ← Machine.along_and_of_forall (P := RaisedInTime) hes]
  refine Machine.along_congr (I := fun s => InStages G s ∧ CounterExact s) (fun s e s' hs hlaw h => ?_)
    (fun s e hs => ?_) ⟨⟨Nat.zero_le _, .nil, fun task hmem => absurd hmem List.not_mem_nil⟩, rfl⟩
  · exact ⟨hs.1.step h, hs.2.step hs.1 hlaw.1 hlaw.2.2 h⟩
  · refine and_congr_right fun _ => ?_
    have hx := hs.2
    rw [CounterLaw, and_iff_right hx, RaisedInTime]
    refine imp_congr_right fun _ => ?_
    rw [CounterExact] at hx
    omega

end

instance (s : NodeState) (e : NodeEvent) : Decidable (CounterLaw s e) :=
  inferInstanceAs (Decidable (_ = _ ∧ (_ → _)))

instance (s : NodeState) (e : NodeEvent) : Decidable (RaisedInTime s e) :=
  inferInstanceAs (Decidable (_ → _))

def bareBlock (nonce : UInt32) : Block := ⟨⟨1, ByteVec.zero 32, ByteVec.zero 32, 0, 0, nonce⟩, [], none, none⟩

def asyncWriter : PersistConfig := ⟨true, none⟩

def go (i : Nat) : NodeEvent := .advance i ⟨true, true⟩

/-- A submission is queued and counted before the writer takes it. -/
def countedRun : List NodeEvent := [.start (.write 1 (bareBlock 0)), go 0, go 0, .start .writer, go 1, go 1, go 1, go 1]

theorem counter_law_counted :
    (machine shaCrypto devnetNode asyncWriter).Along CounterLaw ⟨{}, []⟩ countedRun :=
  (counter_law_iff ∅ (by simp [countedRun, go])).mpr (by decide +kernel)

/-- The writer has written the block and counted it off before the submission has counted it. -/
def overtakenRun : List NodeEvent := [.start (.write 1 (bareBlock 0)), .start .writer, go 0, go 1, go 1, go 1, go 1]

theorem counter_underflow :
    ((machine shaCrypto devnetNode asyncWriter).run ⟨{}, []⟩ overtakenRun).map
        (fun s => (s.shared.queueLen, unfinished s.shared, submitting s)) = some (2 ^ 64 - 1, 0, 1) ∧
      ¬(machine shaCrypto devnetNode asyncWriter).Along CounterLaw ⟨{}, []⟩ overtakenRun := by
  decide +kernel

end Persist

end IriumConsensus
