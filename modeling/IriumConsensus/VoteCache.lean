import IriumConsensus.Equivocation
import IriumConsensus.Lib.Tasks
import IriumConsensus.Persist.RecordCodec

namespace IriumConsensus

open ByteCodec FinMaps Tasks

inductive GossipOutcome where
  | acceptedNew
  | duplicate
  | rejected (reason : String)
  deriving DecidableEq, Repr

abbrev VoteKey := UInt64 × Hash32 × UInt8 × Pkh

def FinalityVoteV1.key (v : FinalityVoteV1) : VoteKey := (v.targetHeight, v.blockHash, v.voteType, v.memberPkh)

def finalityVoteMaxBytes : Nat := 512
def finalitySeenCap : Nat := 100000
def finalityPruneKeep : Nat := 64

structure NodeFinalityVoteCache where
  votes : FinMap VoteKey FinalityVoteV1 := ∅
  seen : Finset Hash32 := ∅
  tip : Nat := 0

/-- What a caller does at once: a load or store of the tip, or what it does while it holds one of the locks. -/
inductive CacheOp where
  | loadTip
  | storeTip (tip : Nat)
  | alreadySeen (d : Hash32)
  | enter (v : FinalityVoteV1)
  | markSeen (d : Hash32)
  | retain (floor : Nat)
  | clearVotes
  | clearSeen

def CacheOp.Answer : CacheOp → Type
  | .loadTip => Nat
  | .alreadySeen _ => Bool
  | .enter _ => Option GossipOutcome
  | _ => Unit

namespace NodeFinalityVoteCache

variable (C : Crypto) (E : NodeEnv)

/-- A commit of the same member for another block at the same height. -/
def equivocates (c : NodeFinalityVoteCache) (v : FinalityVoteV1) : Prop :=
  ∃ k ∈ c.votes.keys, k.1 = v.targetHeight ∧ k.2.2.2 = v.memberPkh ∧ k.2.2.1 = v.voteType ∧ k.2.1 ≠ v.blockHash

instance (c : NodeFinalityVoteCache) (v : FinalityVoteV1) : Decidable (c.equivocates v) :=
  inferInstanceAs (Decidable (∃ k ∈ c.votes.keys, _))

/-- What an ingesting caller does while it holds the lock on the votes. -/
def enter (c : NodeFinalityVoteCache) (v : FinalityVoteV1) : Option GossipOutcome × NodeFinalityVoteCache :=
  match c.votes.lookup v.key with
  | some ex =>
    if ex.digest C ≠ v.digest C then (some (.rejected "conflicting vote for member"), c) else (some .duplicate, c)
  | none =>
    if auditHardeningActive E v.targetHeight.toNat ∧ v.voteType = 1 ∧ c.equivocates v then
      (some (.rejected "equivocating finality vote: member voted two blocks at one height"), c)
    else (none, { c with votes := c.votes.insert v.key v })

def exec (op : CacheOp) (_ : Unit) (c : NodeFinalityVoteCache) : op.Answer × NodeFinalityVoteCache :=
  match op with
  | .loadTip => (c.tip, c)
  | .storeTip tip => ((), { c with tip })
  | .alreadySeen d => (decide (d ∈ c.seen), c)
  | .enter v => c.enter C E v
  | .markSeen d => ((), { c with seen := insert d (if finalitySeenCap ≤ c.seen.card then ∅ else c.seen) })
  | .retain floor => ((), { c with votes := retain (fun k _ => floor ≤ k.1.toNat) c.votes })
  | .clearVotes => ((), { c with votes := ∅ })
  | .clearSeen => ((), { c with seen := ∅ })

/-- Whether votes are gossiped at all, and how far above the tip. -/
structure GossipConfig where
  enabled : Bool
  window : Nat

/-- An early return is the error of the call. -/
abbrev CacheCall := Handler CacheOp CacheOp.Answer GossipOutcome

def loadTip : CacheCall Nat := .ask .loadTip fun tip => .done (.ok tip)
def setTip (tip : Nat) : CacheCall Unit := .ask (.storeTip tip) fun _ => .done (.ok ())
def alreadySeen (d : Hash32) : CacheCall Bool := .ask (.alreadySeen d) fun seen => .done (.ok seen)
def markSeen (d : Hash32) : CacheCall Unit := .ask (.markSeen d) fun _ => .done (.ok ())
def store (v : FinalityVoteV1) : CacheCall (Option GossipOutcome) := .ask (.enter v) fun outcome => .done (.ok outcome)
def retainFrom (floor : Nat) : CacheCall Unit := .ask (.retain floor) fun _ => .done (.ok ())
def clearVotes : CacheCall Unit := .ask .clearVotes fun _ => .done (.ok ())
def clearSeen : CacheCall Unit := .ask .clearSeen fun _ => .done (.ok ())

variable (G : GossipConfig)

def inWindow (target : Nat) : CacheCall Bool := do
  let tip ← loadTip
  pure (decide (tip ≤ target ∧ target ≤ min (tip + G.window) u64Max))

def ingestBytes (bytes : Bytes) : CacheCall GossipOutcome := do
  Handler.failIf (G.enabled = false) (.rejected "finality gossip disabled")
  Handler.failIf (finalityVoteMaxBytes < bytes.length) (.rejected "finality vote oversize")
  let v ← Handler.lift ((FinalityVoteV1.deserialize bytes).mapError .rejected)
  Handler.failIf (v.networkId ≠ networkIdByte E) (.rejected "wrong network")
  let _ ← Handler.lift ((v.verify C v.networkId v.targetHeight.toNat v.blockHash).mapError .rejected)
  let inside ← inWindow G v.targetHeight.toNat
  Handler.failIf (inside = false) (.rejected "out of finality window")
  let d := v.digest C
  let seen ← alreadySeen d
  Handler.failIf (seen) .duplicate
  match ← store v with
  | some outcome => Handler.fail outcome
  | none =>
    markSeen d
    pure .acceptedNew

def prune (tip : Nat) : CacheCall Unit := do
  setTip tip
  let floor := tip - finalityPruneKeep
  if floor = 0 then pure () else retainFrom floor

def clear : CacheCall Unit := do
  clearVotes
  clearSeen

inductive CacheRequest where
  | ingestBytes (bytes : Bytes)
  | prune (tip : Nat)
  | setTip (tip : Nat)
  | clear

def call : CacheRequest → CacheCall (Option GossipOutcome)
  | .ingestBytes bytes => some <$> ingestBytes C E G bytes
  | .prune tip => do
    prune tip
    pure none
  | .setTip tip => do
    setTip tip
    pure none
  | .clear => do
    clear
    pure none

/-- Any number of callers at the same time, with their operations in any order. -/
def machine : Machine NodeFinalityVoteCache CacheRequest Unit CacheOp CacheOp.Answer
    (Except GossipOutcome (Option GossipOutcome)) where
  program := call C E G
  mayStart _ _ := true
  exec := exec C E

def votesFor (c : NodeFinalityVoteCache) (height : UInt64) (blockHash : Hash32) (voteType : UInt8) :
    Finset FinalityVoteV1 :=
  (c.votes.keys.filter fun k => k.1 = height ∧ k.2.1 = blockHash ∧ k.2.2.1 = voteType).biUnion fun k =>
    (c.votes.lookup k).toFinset

variable {C E} {G : GossipConfig} {c : NodeFinalityVoteCache} {v w : FinalityVoteV1}

theorem mem_votesFor {height : UInt64} {blockHash : Hash32} {voteType : UInt8}
    (h : v ∈ c.votesFor height blockHash voteType) :
    ∃ k, c.votes.lookup k = some v ∧ k.1 = height ∧ k.2.1 = blockHash ∧ k.2.2.1 = voteType := by
  obtain ⟨k, hk, hv⟩ := Finset.mem_biUnion.mp h
  exact ⟨k, Option.mem_toFinset.mp hv, (Finset.mem_filter.mp hk).2⟩

variable (C E)

def Verified (v : FinalityVoteV1) : Prop :=
  v.networkId = networkIdByte E ∧ v.verify C v.networkId v.targetHeight.toNat v.blockHash = .ok ()

/-- Each vote was verified and is stored under its own key, and a member has committed to one block at a height. -/
structure Sound (c : NodeFinalityVoteCache) : Prop where
  verified : ∀ k v, c.votes.lookup k = some v → v.key = k ∧ Verified C E v
  single : ∀ k k', k ∈ c.votes → k' ∈ c.votes → auditHardeningActive E k.1.toNat → k.2.2.1 = 1 →
    k'.2.2.1 = 1 → k.1 = k'.1 → k.2.2.2 = k'.2.2.2 → k.2.1 = k'.2.1

def Vetted : CacheOp → Prop
  | .enter v => Verified C E v
  | _ => True

variable {C E}

theorem Sound.of_submap {votes : FinMap VoteKey FinalityVoteV1} (h : Sound C E c) (hsub : Submap votes c.votes) :
    Sound C E { c with votes } where
  verified k v hv := h.verified k v (hsub k v hv)
  single k k' hk hk' := by
    obtain ⟨v, hv⟩ := Finmap.mem_iff.mp hk
    obtain ⟨v', hv'⟩ := Finmap.mem_iff.mp hk'
    exact h.single k k' (Finmap.mem_of_lookup_eq_some (hsub k v hv)) (Finmap.mem_of_lookup_eq_some (hsub k' v' hv'))

theorem Sound.insert (h : Sound C E c) (hv : Verified C E v)
    (hnew : ¬(auditHardeningActive E v.targetHeight.toNat ∧ v.voteType = 1 ∧ c.equivocates v)) :
    Sound C E { c with votes := c.votes.insert v.key v } where
  verified k w hw := by
    rw [lookup_insert_eq] at hw
    split at hw
    next hk =>
      obtain rfl := Option.some.inj hw
      exact ⟨hk.symm, hv⟩
    next => exact h.verified k w hw
  single k k' hk hk' haudit hcommit hcommit' hheight hmember := by
    -- the lock is held from the search to the insertion, so what was searched is what the vote is added to
    have hother : ∀ k ∈ c.votes, auditHardeningActive E v.targetHeight.toNat → v.voteType = 1 →
        k.2.2.1 = 1 → k.1 = v.targetHeight → k.2.2.2 = v.memberPkh → k.2.1 = v.blockHash := by
      intro k hk haudit hvote htype hheight hmember
      by_contra hne
      exact hnew ⟨haudit, hvote, k, Finmap.mem_keys.mpr hk, hheight, hmember, htype.trans hvote.symm, hne⟩
    rcases Finmap.mem_insert.mp hk with rfl | hk <;> rcases Finmap.mem_insert.mp hk' with rfl | hk'
    · rfl
    · exact (hother k' hk' haudit hcommit hcommit' hheight.symm hmember.symm).symm
    · rw [hheight] at haudit
      exact hother k hk haudit hcommit' hcommit hheight hmember
    · exact h.single k k' hk hk' haudit hcommit hcommit' hheight hmember

theorem Sound.enter (h : Sound C E c) (hv : Verified C E v) : Sound C E (c.enter C E v).2 := by
  unfold NodeFinalityVoteCache.enter
  split
  next => split <;> exact h
  next =>
    split
    next => exact h
    next hnew => exact h.insert hv hnew

theorem Sound.exec {op : CacheOp} (h : Sound C E c) (hop : Vetted C E op) : Sound C E (exec C E op () c).2 := by
  cases op with
  | enter v => exact h.enter hop
  | retain floor =>
    refine h.of_submap fun k v hv => ?_
    rw [lookup_retain] at hv
    exact (Option.filter_eq_some_iff.mp hv).1
  | clearVotes => exact h.of_submap fun k v hv => absurd hv (by simp)
  | _ => exact ⟨h.verified, h.single⟩

theorem emits_inWindow {target : Nat} : Emits (Vetted C E) (fun _ => True) (inWindow G target) :=
  Emits.bind (emits_ask trivial) fun _ _ => emits_pure trivial

theorem emits_prune {tip : Nat} : Emits (Vetted C E) (fun _ => True) (prune tip) := by
  refine Emits.bind (emits_ask trivial) fun _ _ => ?_
  by_cases hfloor : tip - finalityPruneKeep = 0
  · rw [if_pos hfloor]
    exact emits_pure trivial
  · rw [if_neg hfloor]
    exact emits_ask trivial

theorem emits_ingestBytes {bytes : Bytes} : Emits (Vetted C E) (fun _ => True) (ingestBytes C E G bytes) := by
  refine emits_failIf.bind fun _ _ => emits_failIf.bind fun _ _ => emits_lift.bind fun v _ => ?_
  refine emits_failIf.bind fun _ hnetwork => emits_lift.bind fun _ hverify => ?_
  refine emits_inWindow.bind fun inside _ => ?_
  refine emits_failIf.bind fun _ _ => Emits.bind (emits_ask trivial) fun seen _ => emits_failIf.bind fun _ _ => ?_
  refine Emits.bind (emits_ask ⟨not_not.mp hnetwork, Checks.mapError_eq_ok.mp hverify⟩) fun outcome _ => ?_
  cases outcome with
  | some outcome => exact emits_fail
  | none => exact Emits.bind (emits_ask trivial) fun _ _ => emits_pure trivial

theorem emits_call (req : CacheRequest) : Emits (Vetted C E) (fun _ => True) (call C E G req) := by
  cases req with
  | ingestBytes bytes => exact emits_ingestBytes.bind fun _ _ => emits_pure trivial
  | prune tip => exact emits_prune.bind fun _ _ => emits_pure trivial
  | setTip tip => exact Emits.bind (emits_ask trivial) fun _ _ => emits_pure trivial
  | clear =>
    exact Emits.bind (Emits.bind (emits_ask trivial) fun _ _ => emits_ask trivial) fun _ _ => emits_pure trivial

variable (C E) in
def Guarded (s : System NodeFinalityVoteCache CacheRequest CacheOp CacheOp.Answer
    (Except GossipOutcome (Option GossipOutcome))) : Prop :=
  Sound C E s.shared ∧
    ∀ task ∈ s.tasks, Obeys (Observer.constant CacheOp.Answer (Vetted C E)) (fun _ _ => True) () task.2

theorem Guarded.step {s s'} {e : Event CacheRequest Unit} (h : Guarded C E s)
    (hstep : (machine C E G).step s e = some s') : Guarded C E s' := by
  constructor
  · obtain ⟨-, hshared⟩ | ⟨req, op, o, hasks, hshared⟩ := Machine.step_shared hstep
    · exact hshared ▸ h.1
    · obtain ⟨i, k, -, htask⟩ := Machine.exists_ask_of_asks hasks
      exact hshared ▸ h.1.exec (h.2 _ (List.mem_of_getElem? htask)).1
  · refine Machine.step_tasks (L := fun _ p => Obeys (Observer.constant CacheOp.Answer (Vetted C E))
      (fun _ _ => True) () p) (fun req => ?_) (fun req op k hk ans => hk.2 ans) h.2 hstep
    exact (emits_call req).obeys.mono fun _ _ _ => trivial

theorem guarded_start : Guarded C E ⟨{}, []⟩ := by
  refine ⟨⟨fun k v hv => ?_, fun k k' hk => absurd hk Finmap.notMem_empty⟩, fun _ h => absurd h List.not_mem_nil⟩
  simp at hv

/-- However the calls interleave, the cache holds verified votes under their own keys and no two commits of a member at
one height where the audit rules are active. -/
theorem vote_cache_sound {es : List (Event CacheRequest Unit)} {s}
    (hrun : (machine C E G).run ⟨{}, []⟩ es = some s) :
    (∀ k v, s.shared.votes.lookup k = some v → v.key = k ∧ v.networkId = networkIdByte E ∧
      v.verify C v.networkId v.targetHeight.toNat v.blockHash = .ok ()) ∧
    (∀ k k' v w, s.shared.votes.lookup k = some v → s.shared.votes.lookup k' = some w →
      auditHardeningActive E v.targetHeight.toNat → v.voteType = 1 → w.voteType = 1 →
      v.memberPkh = w.memberPkh → v.targetHeight = w.targetHeight → v.blockHash = w.blockHash) ∧
    ∀ height b b' v w, auditHardeningActive E height.toNat → v ∈ s.shared.votesFor height b 1 →
      w ∈ s.shared.votesFor height b' 1 → v.memberPkh = w.memberPkh → b = b' := by
  obtain ⟨hsound, -⟩ := Machine.run_invariant (fun s e s' => Guarded.step) guarded_start hrun
  refine ⟨hsound.verified, ?_, ?_⟩
  · intro k k' v w hv hw haudit hvote hvote' hmember hheight
    obtain ⟨rfl, -⟩ := hsound.verified k v hv
    obtain ⟨rfl, -⟩ := hsound.verified k' w hw
    exact hsound.single _ _ (Finmap.mem_of_lookup_eq_some hv) (Finmap.mem_of_lookup_eq_some hw) haudit hvote hvote'
      hheight hmember
  · intro height b b' v w haudit hv hw hmember
    obtain ⟨k, hk, rfl, rfl, htype⟩ := mem_votesFor hv
    obtain ⟨k', hk', hheight, rfl, htype'⟩ := mem_votesFor hw
    obtain ⟨hkey, -⟩ := hsound.verified k v hk
    obtain ⟨hkey', -⟩ := hsound.verified k' w hk'
    refine hsound.single k k' (Finmap.mem_of_lookup_eq_some hk) (Finmap.mem_of_lookup_eq_some hk') haudit htype htype'
      hheight.symm ?_
    exact hkey ▸ hkey' ▸ hmember

end NodeFinalityVoteCache

namespace ChainState

open NodeFinalityVoteCache

def auditNode : NodeEnv :=
  { devnetNode with activationHeight := fun v => if v = .auditHardening then some 0 else none }

/-- Two ingesting callers that both find their vote unseen before one of them holds the lock. -/
def racingIngests : List (Event CacheRequest Unit) :=
  [.start (.ingestBytes commitVote.serialize), .start (.ingestBytes sameEpochVote.serialize), .advance 0 (),
    .advance 1 (), .advance 0 (), .advance 1 (), .advance 1 (), .advance 0 (), .advance 1 (), .start .clear]

theorem vote_cache_sound_racing :
    ∃ s, (machine doubleVoteCrypto auditNode ⟨true, 64⟩).run ⟨{}, []⟩ racingIngests = some s ∧
      s.shared.votes.lookup sameEpochVote.key = some sameEpochVote ∧
      s.shared.votes.lookup commitVote.key ≠ some commitVote := by
  obtain ⟨s, hs, hvote⟩ :=
    Checks.exists_of_any ((machine doubleVoteCrypto auditNode ⟨true, 64⟩).run ⟨{}, []⟩ racingIngests)
    (fun s => s.shared.votes.lookup sameEpochVote.key = some sameEpochVote) (by decide +kernel)
  refine ⟨s, hs, hvote, fun hother => ?_⟩
  have hblock := (vote_cache_sound hs).2.1 _ _ _ _ hother hvote (by decide) rfl rfl rfl rfl
  exact absurd hblock (by decide)

end ChainState

end IriumConsensus
