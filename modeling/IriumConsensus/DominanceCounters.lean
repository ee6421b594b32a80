import IriumConsensus.Poawx.Effects

namespace IriumConsensus

open FinMaps

def DominanceBucket.forgetHeight (b : DominanceBucket) : DominanceBucket := { b with lastRewardHeight := 0 }

namespace DominanceBucket

variable (b : DominanceBucket) (kind : RoleRewardKind) (amount height : Nat)

theorem forgetHeight_add : (b.add kind amount height).forgetHeight = (b.forgetHeight.add kind amount height).forgetHeight := by
  cases kind <;> rfl

theorem forgetHeight_sub : (b.sub kind amount).forgetHeight = b.forgetHeight.sub kind amount := by
  cases kind <;> rfl

theorem isEmpty_forgetHeight : b.forgetHeight.isEmpty = b.isEmpty := rfl

end DominanceBucket

namespace PersistentDominance

variable {d d' : PersistentDominance}

def counters (d : PersistentDominance) (key : Pkh × Nat) : Option DominanceBucket :=
  (d.buckets.lookup key).map DominanceBucket.forgetHeight

structure SameCounters (d d' : PersistentDominance) : Prop where
  windowLen : d.windowLen = d'.windowLen
  lookback : d.lookback = d'.lookback
  counters : ∀ key, d.counters key = d'.counters key

theorem SameCounters.refl (d : PersistentDominance) : SameCounters d d := ⟨rfl, rfl, fun _ => rfl⟩

theorem SameCounters.symm (h : SameCounters d d') : SameCounters d' d :=
  ⟨h.windowLen.symm, h.lookback.symm, fun key => (h.counters key).symm⟩

theorem SameCounters.trans {d'' : PersistentDominance} (h : SameCounters d d') (h' : SameCounters d' d'') :
    SameCounters d d'' :=
  ⟨h.windowLen.trans h'.windowLen, h.lookback.trans h'.lookback, fun key => (h.counters key).trans (h'.counters key)⟩

theorem counters_insert (d : PersistentDominance) (key k : Pkh × Nat) (b : DominanceBucket) :
    counters { d with buckets := d.buckets.insert key b } k = if k = key then some b.forgetHeight else d.counters k := by
  unfold counters
  rw [lookup_insert_eq]
  split <;> rfl

theorem SameCounters.windowId (h : SameCounters d d') (height : Nat) : d.windowId height = d'.windowId height := by
  rw [PersistentDominance.windowId, PersistentDominance.windowId, h.windowLen]

theorem SameCounters.prune (h : SameCounters d d') (height : Nat) : SameCounters (d.prune height) (d'.prune height) := by
  unfold PersistentDominance.prune
  simp only [h.windowId, h.lookback]
  split
  next => exact h
  next =>
    refine ⟨h.windowLen, rfl, fun key => ?_⟩
    have hkey := h.counters key
    unfold PersistentDominance.counters at hkey ⊢
    simp only [lookup_retain]
    cases hd : d.buckets.lookup key <;> cases hd' : d'.buckets.lookup key <;> simp [hd, hd'] at hkey ⊢
    simp [Option.filter_some, apply_ite, hkey]

theorem forgetHeight_credit (d : PersistentDominance) (key : Pkh × Nat) (kind : RoleRewardKind) (amount height : Nat) :
    (((d.buckets.lookup key).getD {}).add kind amount height).forgetHeight =
      (((d.counters key).getD {}).add kind amount height).forgetHeight := by
  have hkey : ((d.buckets.lookup key).getD {}).forgetHeight = (d.counters key).getD {} := by
    unfold counters
    cases d.buckets.lookup key <;> rfl
  rw [DominanceBucket.forgetHeight_add, hkey]

theorem SameCounters.applyEvent (h : SameCounters d d') (pkh : Pkh) (kind : RoleRewardKind) (amount height : Nat) :
    SameCounters (d.applyEvent pkh kind amount height) (d'.applyEvent pkh kind amount height) := by
  unfold PersistentDominance.applyEvent
  have hinserted : SameCounters
      { d with
        buckets := d.buckets.insert (pkh, d.windowId height)
          (((d.buckets.lookup (pkh, d.windowId height)).getD {}).add kind amount height) }
      { d' with
        buckets := d'.buckets.insert (pkh, d'.windowId height)
          (((d'.buckets.lookup (pkh, d'.windowId height)).getD {}).add kind amount height) } := by
    refine ⟨h.windowLen, h.lookback, fun key => ?_⟩
    rw [counters_insert, counters_insert, h.windowId, forgetHeight_credit, forgetHeight_credit, h.counters, h.counters]
  exact hinserted.prune height

theorem lookup_revertEvent (d : PersistentDominance) {pkh : Pkh} {kind : RoleRewardKind} {amount height : Nat}
    {key : Pkh × Nat} :
    (d.revertEvent pkh kind amount height).buckets.lookup key =
      if key = (pkh, d.windowId height) then
        (d.buckets.lookup key).bind fun b => if (b.sub kind amount).isEmpty then none else some (b.sub kind amount)
      else d.buckets.lookup key := by
  unfold revertEvent
  cases hb : d.buckets.lookup (pkh, d.windowId height) with
  | none =>
    simp only [hb]
    split
    next hk => rw [hk, hb, Option.bind_none]
    next => rfl
  | some b =>
    simp only [hb]
    by_cases hk : key = (pkh, d.windowId height)
    · rw [if_pos hk, hk, hb, Option.bind_some]
      split
      next => exact Finmap.lookup_erase _ _
      next => exact Finmap.lookup_insert _
    · rw [if_neg hk]
      split
      next => exact Finmap.lookup_erase_ne hk
      next => exact Finmap.lookup_insert_of_ne _ hk

theorem counters_revertEvent (d : PersistentDominance) (pkh : Pkh) (kind : RoleRewardKind) (amount height : Nat)
    (key : Pkh × Nat) :
    (d.revertEvent pkh kind amount height).counters key =
      if key = (pkh, d.windowId height) then
        (d.counters key).bind fun b => if (b.sub kind amount).isEmpty then none else some (b.sub kind amount)
      else d.counters key := by
  unfold counters
  rw [lookup_revertEvent]
  split
  next =>
    cases d.buckets.lookup key with
    | none => rfl
    | some b =>
      simp only [Option.bind_some, Option.map_some, ← DominanceBucket.forgetHeight_sub,
        DominanceBucket.isEmpty_forgetHeight]
      split <;> rfl
  next => rfl

theorem revertEvent_lens (d : PersistentDominance) (pkh : Pkh) (kind : RoleRewardKind) (amount height : Nat) :
    (d.revertEvent pkh kind amount height).windowLen = d.windowLen ∧
      (d.revertEvent pkh kind amount height).lookback = d.lookback := by
  unfold revertEvent
  simp only
  split
  next => split_ifs <;> exact ⟨rfl, rfl⟩
  next => exact ⟨rfl, rfl⟩

theorem SameCounters.revertEvent (h : SameCounters d d') (pkh : Pkh) (kind : RoleRewardKind) (amount height : Nat) :
    SameCounters (d.revertEvent pkh kind amount height) (d'.revertEvent pkh kind amount height) := by
  obtain ⟨hw, hl⟩ := revertEvent_lens d pkh kind amount height
  obtain ⟨hw', hl'⟩ := revertEvent_lens d' pkh kind amount height
  refine ⟨by rw [hw, hw', h.windowLen], by rw [hl, hl', h.lookback], fun key => ?_⟩
  rw [counters_revertEvent, counters_revertEvent, h.counters, h.windowId]

theorem SameCounters.bucketTotal (h : SameCounters d d') (key : Pkh × Nat) :
    (d.buckets.lookup key).map DominanceBucket.total = (d'.buckets.lookup key).map DominanceBucket.total := by
  have hkey := congrArg (Option.map DominanceBucket.total) (h.counters key)
  unfold PersistentDominance.counters at hkey
  rw [Option.map_map, Option.map_map] at hkey
  exact hkey

theorem SameCounters.recentTotal (h : SameCounters d d') (pkh : Pkh) (height : Nat) :
    d.recentTotal pkh height = d'.recentTotal pkh height := by
  simp only [PersistentDominance.recentTotal, recentRange, h.windowId, h.lookback, h.bucketTotal]

theorem SameCounters.networkRecentTotal (h : SameCounters d d') (height : Nat) :
    d.networkRecentTotal height = d'.networkRecentTotal height := by
  simp only [PersistentDominance.networkRecentTotal, recentRange, h.windowId, h.lookback]
  congr 1
  refine total_congr fun key => ?_
  have hkey := h.bucketTotal key
  rw [lookup_retain, lookup_retain]
  cases hd : d.buckets.lookup key <;> cases hd' : d'.buckets.lookup key <;> simp [hd, hd'] at hkey ⊢
  simp [Option.filter_some, apply_ite, hkey]

theorem SameCounters.weight (h : SameCounters d d') (score : Nat) (pkh : Pkh) (height : Nat) :
    d.weight score pkh height = d'.weight score pkh height := by
  simp only [PersistentDominance.weight, recentRewardSharePermille, h.networkRecentTotal, h.recentTotal]

end PersistentDominance

end IriumConsensus
