import IriumConsensus.Mempool

namespace IriumConsensus

open Checks FinMaps

/-- What the gate of the stratum server is configured with; a limit of 0 switches the check off. -/
structure StratumConfig where
  maxSessions : Nat
  maxConnPerIp : Nat
  connWindowSecs : Nat
  banThreshold : Nat
  banDurationSecs : Nat
  extraAllowlist : List IpAddr

def StratumConfig.gateAllowlist (cfg : StratumConfig) : List IpAddr := .v4 0x7f000001 :: cfg.extraAllowlist

structure ConnRecord where
  windowStart : Nat
  count : Nat
  rateLimitHits : Nat

inductive GateDecision where
  | allow
  | drop (reason : String)
  deriving DecidableEq

/-- `active` is the session counter; `spawned` are the handlers that have been spawned and have not counted yet. -/
structure PoolGate where
  connRecords : FinMap IpAddr ConnRecord := ∅
  banList : FinMap IpAddr Nat := ∅
  active : Nat := 0
  spawned : Nat := 0

/-- What the clock shows at the three places where the gate asks for it, in nanoseconds. -/
structure GateClock where
  ban : Nat
  window : Nat
  expiry : Nat

namespace PoolGate

def fromSecs (secs : Nat) : Nat := secs * 10 ^ 9

variable (cfg : StratumConfig)

def countConn (ip : IpAddr) (now : Nat) (s : PoolGate) : ConnRecord :=
  let found := (s.connRecords.lookup ip).getD ⟨now, 0, 0⟩
  let entry := if fromSecs cfg.connWindowSecs ≤ now - found.windowStart then ⟨now, 0, found.rateLimitHits⟩ else found
  { entry with count := (entry.count + 1) % 2 ^ 32 }

def rateLimit (ip : IpAddr) (t : GateClock) (s : PoolGate) : GateDecision × PoolGate :=
  let entry := countConn cfg ip t.window s
  let hits := (entry.rateLimitHits + 1) % 2 ^ 32
  let limited := { s with connRecords := s.connRecords.insert ip { entry with rateLimitHits := hits } }
  if entry.count ≤ cfg.maxConnPerIp then (.allow, { s with connRecords := s.connRecords.insert ip entry })
  else if 0 < cfg.banThreshold ∧ cfg.banThreshold ≤ hits then
    (.drop "rate_limit", { limited with banList := s.banList.insert ip (t.expiry + fromSecs cfg.banDurationSecs) })
  else (.drop "rate_limit", limited)

def afterBan (ip : IpAddr) (t : GateClock) (s : PoolGate) : GateDecision × PoolGate :=
  if 0 < cfg.maxSessions ∧ cfg.maxSessions ≤ s.active then (.drop "session_cap", s)
  else if 0 < cfg.maxConnPerIp ∧ 0 < cfg.connWindowSecs then rateLimit cfg ip t s
  else (.allow, s)

def gateConnection (ip : IpAddr) (t : GateClock) (s : PoolGate) : GateDecision × PoolGate :=
  if ip ∈ cfg.gateAllowlist then (.allow, s)
  else match s.banList.lookup ip with
    | some expiresAt =>
      if t.ban < expiresAt then (.drop "banned", s)
      else afterBan cfg ip t { s with banList := s.banList.erase ip, connRecords := s.connRecords.erase ip }
    | none => afterBan cfg ip t s

/-- A round of the background task that `spawn_gate_janitor` starts. -/
def sweep (now : Nat) (s : PoolGate) : PoolGate :=
  let window := fromSecs (max cfg.connWindowSecs 1)
  { s with
    connRecords := retain (fun _ r => now - r.windowStart < window * 2 || 0 < r.rateLimitHits) s.connRecords
    banList := retain (fun _ expiresAt => now < expiresAt) s.banList }

end PoolGate

/-- The accept loop takes a connection, a spawned handler begins or ends, or the janitor runs. -/
inductive SessionEvent where
  | accept (ip : IpAddr) (t : GateClock)
  | enter
  | leave
  | janitor (now : Nat)

namespace PoolGate

variable (cfg : StratumConfig)

def step (s : PoolGate) : SessionEvent → Option PoolGate
  | .accept ip t =>
    match gateConnection cfg ip t s with
    | (.allow, s') => some { s' with spawned := s'.spawned + 1 }
    | (.drop _, s') => some s'
  | .enter => if 0 < s.spawned then some { s with spawned := s.spawned - 1, active := s.active + 1 } else none
  | .leave => if 0 < s.active then some { s with active := s.active - 1 } else none
  | .janitor now => some (sweep cfg now s)

def run (s : PoolGate) (es : List SessionEvent) : Option PoolGate := es.foldlM (step cfg) s

/-- The sessions there are or will be without another connection. -/
def admitted (s : PoolGate) : Nat := s.active + s.spawned

/-- A connection is from an address outside the allow list, and no handler is spawned that has not counted yet. -/
def Alone (s : PoolGate) : SessionEvent → Prop
  | .accept ip _ => ip ∉ cfg.gateAllowlist ∧ s.spawned = 0
  | _ => True

def AllAlone (s : PoolGate) : List SessionEvent → Prop
  | [] => True
  | e :: es => Alone cfg s e ∧ ∀ s' ∈ step cfg s e, AllAlone s' es

instance (s : PoolGate) : (e : SessionEvent) → Decidable (Alone cfg s e)
  | .accept ip _ => inferInstanceAs (Decidable (ip ∉ cfg.gateAllowlist ∧ s.spawned = 0))
  | .enter | .leave | .janitor _ => .isTrue trivial

instance decidableAllAlone (s : PoolGate) : (es : List SessionEvent) → Decidable (AllAlone cfg s es)
  | [] => .isTrue trivial
  | e :: es =>
    have : DecidablePred fun s' => AllAlone cfg s' es := fun s' => decidableAllAlone s' es
    inferInstanceAs (Decidable (Alone cfg s e ∧ ∀ s' ∈ step cfg s e, AllAlone cfg s' es))

variable {cfg} {s s' : PoolGate} {e : SessionEvent} {es : List SessionEvent} {ip : IpAddr} {t : GateClock}

theorem rateLimit_sessions (ip : IpAddr) (t : GateClock) (s : PoolGate) :
    (rateLimit cfg ip t s).2.active = s.active ∧ (rateLimit cfg ip t s).2.spawned = s.spawned := by
  simp only [rateLimit]
  split
  next => exact ⟨rfl, rfl⟩
  next =>
    split
    next => exact ⟨rfl, rfl⟩
    next => exact ⟨rfl, rfl⟩

theorem afterBan_sessions (ip : IpAddr) (t : GateClock) (s : PoolGate) :
    (afterBan cfg ip t s).2.active = s.active ∧ (afterBan cfg ip t s).2.spawned = s.spawned := by
  rw [afterBan]
  split
  next => exact ⟨rfl, rfl⟩
  next =>
    split
    next => exact rateLimit_sessions ip t s
    next => exact ⟨rfl, rfl⟩

theorem gateConnection_sessions (cfg : StratumConfig) (ip : IpAddr) (t : GateClock) (s : PoolGate) :
    (gateConnection cfg ip t s).2.active = s.active ∧ (gateConnection cfg ip t s).2.spawned = s.spawned := by
  rw [gateConnection]
  split
  next => exact ⟨rfl, rfl⟩
  next =>
    split
    next =>
      split
      next => exact ⟨rfl, rfl⟩
      next => exact afterBan_sessions ip t _
    next => exact afterBan_sessions ip t s

theorem afterBan_room (hmax : 0 < cfg.maxSessions) (h : (afterBan cfg ip t s).1 = .allow) :
    s.active < cfg.maxSessions := by
  rw [afterBan] at h
  split at h
  next => cases h
  next hroom => omega

theorem gateConnection_room (hmax : 0 < cfg.maxSessions) (hip : ip ∉ cfg.gateAllowlist)
    (h : (gateConnection cfg ip t s).1 = .allow) : s.active < cfg.maxSessions := by
  rw [gateConnection, if_neg hip] at h
  split at h
  next =>
    split at h
    next => cases h
    next =>
      exact afterBan_room (s := { s with banList := s.banList.erase ip, connRecords := s.connRecords.erase ip }) hmax h
  next => exact afterBan_room hmax h

theorem admitted_accept (h : step cfg s (.accept ip t) = some s') :
    s'.admitted = s.admitted + if (gateConnection cfg ip t s).1 = .allow then 1 else 0 := by
  obtain ⟨hactive, hspawned⟩ := gateConnection_sessions cfg ip t s
  rw [step] at h
  split at h
  next s₁ hgate =>
    rw [hgate] at hactive hspawned
    obtain rfl := Option.some.inj h
    simp only [admitted, hgate, if_pos, ← hactive, ← hspawned, Nat.add_assoc]
  next reason s₁ hgate =>
    rw [hgate] at hactive hspawned
    obtain rfl := Option.some.inj h
    simp [admitted, hgate, ← hactive, ← hspawned]

theorem admitted_step (hmax : 0 < cfg.maxSessions) (halone : Alone cfg s e) (hs : s.admitted ≤ cfg.maxSessions)
    (h : step cfg s e = some s') : s'.admitted ≤ cfg.maxSessions := by
  cases e with
  | accept ip t =>
    obtain ⟨hip, hspawned⟩ := halone
    rw [admitted_accept h]
    split
    next hallow =>
      have hroom := gateConnection_room hmax hip hallow
      rw [admitted, hspawned]
      exact hroom
    next => exact hs
  | enter =>
    obtain ⟨hpos, h⟩ := Option.ite_none_right_eq_some.mp h
    obtain rfl := Option.some.inj h
    simp only [admitted] at *
    omega
  | leave =>
    obtain ⟨hpos, h⟩ := Option.ite_none_right_eq_some.mp h
    obtain rfl := Option.some.inj h
    simp only [admitted] at *
    omega
  | janitor now =>
    obtain rfl := Option.some.inj h
    exact hs

theorem admitted_run (hmax : 0 < cfg.maxSessions) (halone : AllAlone cfg s es) (hs : s.admitted ≤ cfg.maxSessions)
    {p : List SessionEvent} (hp : p <+: es) (h : run cfg s p = some s') : s'.admitted ≤ cfg.maxSessions := by
  induction p generalizing s es with
  | nil =>
    obtain rfl := Option.some.inj h
    exact hs
  | cons e p ih =>
    obtain ⟨rest, rfl⟩ := hp
    obtain ⟨hfirst, hrest⟩ := halone
    obtain ⟨s₁, he, hrun⟩ := Option.bind_eq_some_iff.mp h
    exact ih (hrest s₁ he) (admitted_step hmax hfirst hs he) (List.prefix_append p rest) hrun

/-- A configured cap holds at each point of a run in which every connection is taken alone: a limit of 0 is none. -/
theorem session_cap (cfg : StratumConfig) (es : List SessionEvent) (halone : AllAlone cfg {} es)
    (hmax : 0 < cfg.maxSessions) (p : List SessionEvent) (hp : p <+: es) (s : PoolGate) (hrun : run cfg {} p = some s) :
    s.active ≤ cfg.maxSessions :=
  (Nat.le_add_right _ _).trans (admitted_run hmax halone (Nat.zero_le _) hp hrun)

def oneSession : StratumConfig := ⟨1, 10, 60, 5, 300, []⟩

/-- The second connection is refused while the first session lasts, and taken after it. -/
theorem one_session_at_a_time :
    ∃ s, run oneSession {} [.accept (.v4 1) ⟨0, 0, 0⟩, .enter, .accept (.v4 2) ⟨0, 0, 0⟩, .leave,
        .accept (.v4 2) ⟨0, 0, 0⟩, .enter] = some s ∧ s.active = 1 ∧ s.active ≤ oneSession.maxSessions := by
  obtain ⟨s, hrun, hactive⟩ := exists_of_any (run oneSession {} [.accept (.v4 1) ⟨0, 0, 0⟩, .enter,
    .accept (.v4 2) ⟨0, 0, 0⟩, .leave, .accept (.v4 2) ⟨0, 0, 0⟩, .enter]) (·.active = 1) (by decide)
  exact ⟨s, hrun, hactive, session_cap oneSession _ (by decide) (by decide) _ List.prefix_rfl s hrun⟩

/-- Two connections are accepted before the handler of the first has counted. -/
theorem session_cap_exceeded :
    oneSession.maxSessions = 1 ∧
      (run oneSession {} [.accept (.v4 1) ⟨0, 0, 0⟩, .accept (.v4 2) ⟨0, 0, 0⟩, .enter, .enter]).map (·.active) =
        some 2 := by
  decide

end PoolGate

end IriumConsensus
