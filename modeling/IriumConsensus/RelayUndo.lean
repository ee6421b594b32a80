import IriumConsensus.Relay

namespace IriumConsensus

open Checks FinMaps

variable {headers : List ForeignHeader} {staged : List (Hash32 × HeaderEntry)} {cur : Cursor}

def Relay.SameKeys (r : Relay) : Prop := ∀ h, h ∈ r.heights ↔ h ∈ r.headers

theorem Relay.empty_sameKeys : Relay.empty.SameKeys := fun _ =>
  iff_of_false Finmap.notMem_empty Finmap.notMem_empty

/-- Staged headers are new to the relay and pairwise different. -/
structure Fresh (r : Relay) (staged : List (Hash32 × HeaderEntry)) : Prop where
  nodup : (staged.map Prod.fst).Nodup
  unknown : ∀ h ∈ staged.map Prod.fst, h ∉ r.headers

/-- Everything that applying a batch can do to a relay. -/
inductive RelayStep (r : Relay) : RelayUpdate → Relay → Prop
  | unchanged : RelayStep r (noHeadersAdded r) r
  | extended {anchor : Anchor} {staged : List (Hash32 × HeaderEntry)} (hne : staged ≠ [])
      (hf : Fresh r staged) :
      RelayStep r ⟨r.tip, r.tipHeight, staged.map Prod.fst⟩ (commitStaged r anchor staged)

variable {C : Crypto} {R : RelayRules} {r r' : Relay} {anchor : Anchor} {blockTime : UInt32}
  {u : RelayUpdate} {i : Nat} {e : HeaderEntry} {hs : List ForeignHeader} {out : List (Hash32 × HeaderEntry)}

theorem stageHeader_new {header : ForeignHeader} (h : stageHeader C R r anchor blockTime staged i cur header = .ok e) :
    header.blockHash C ∉ r.headers ∧ header.blockHash C ∉ staged.map Prod.fst := by
  simp only [stageHeader, bind_eq_ok, exists_unit, failIf_eq_ok] at h
  exact ⟨h.2.1, h.2.2.1⟩

theorem Fresh.snoc {hash : Hash32} (hf : Fresh r staged) (hr : hash ∉ r.headers) (hs : hash ∉ staged.map Prod.fst) :
    Fresh r (staged ++ [(hash, e)]) where
  nodup := by
    rw [List.map_append, List.nodup_append]
    refine ⟨hf.nodup, by simp, ?_⟩
    rintro a ha b hb rfl
    simp only [List.map_cons, List.map_nil, List.mem_singleton] at hb
    exact hs (hb ▸ ha)
  unknown := by
    intro h hh
    simp only [List.map_append, List.map_cons, List.map_nil, List.mem_append, List.mem_singleton] at hh
    rcases hh with hh | rfl
    · exact hf.unknown h hh
    · exact hr

theorem stageHeaders_induct {I : List (Hash32 × HeaderEntry) → Cursor → List ForeignHeader → Prop}
    (hstep : ∀ staged i cur header hs e, stageHeader C R r anchor blockTime staged i cur header = .ok e → I staged cur (header :: hs) → I (staged ++ [(header.blockHash C, e)]) ⟨header.blockHash C, e.height, e.totalWork⟩ hs)
    (hI : I staged cur hs) (h : stageHeaders C R r anchor blockTime staged i cur hs = .ok out) :
    ∃ cur', I out cur' [] := by
  induction hs generalizing staged i cur with
  | nil =>
    simp only [stageHeaders, Except.ok.injEq] at h
    exact ⟨cur, h ▸ hI⟩
  | cons header hs ih =>
    simp only [stageHeaders, bind_eq_ok] at h
    obtain ⟨e, he, h⟩ := h
    exact ih (hstep staged i cur header hs e he hI) h

theorem stageHeaders_fresh (hf : Fresh r staged) (h : stageHeaders C R r anchor blockTime staged i cur hs = .ok out) :
    Fresh r out ∧ staged.length + hs.length = out.length := by
  refine Exists.elim (stageHeaders_induct (I := fun out _ rest => Fresh r out ∧
    staged.length + hs.length = out.length + rest.length) ?_ ⟨hf, rfl⟩ h) fun _ hout => hout
  rintro out i cur header rest e he ⟨hf, hlen⟩
  obtain ⟨hr, hst⟩ := stageHeader_new he
  refine ⟨hf.snoc hr hst, ?_⟩
  simp only [List.length_append, List.length_cons, List.length_nil] at hlen ⊢
  omega

theorem applyAfterPrefix_step {rest : List ForeignHeader}
    (h : applyAfterPrefix C R r anchor blockTime headers cur rest = .ok (u, r')) : RelayStep r u r' := by
  unfold applyAfterPrefix at h
  by_cases hrest : rest = []
  · simp only [hrest, ↓reduceIte, pure_eq_ok, Prod.mk.injEq] at h
    obtain ⟨rfl, rfl⟩ := h
    exact .unchanged
  · simp only [hrest, ↓reduceIte, bind_eq_ok, exists_unit, pure_eq_ok, Prod.mk.injEq] at h
    obtain ⟨-, staged, hst, rfl, rfl⟩ := h
    obtain ⟨hf, hlen⟩ := stageHeaders_fresh ⟨by simp, by simp⟩ hst
    refine .extended ?_ hf
    rintro rfl
    exact hrest (List.length_eq_zero_iff.mp (by simpa using hlen))

theorem applyBtcHeaderBatch_step
    (h : applyBtcHeaderBatch C headers blockTime r anchor = .ok (u, r')) : RelayStep r u r' := by
  simp only [applyBtcHeaderBatch, bind_eq_ok, exists_unit] at h
  obtain ⟨first, -, -, start, -, h⟩ := h
  split at h
  next =>
    simp only [pure_eq_ok, Prod.mk.injEq] at h
    obtain ⟨rfl, rfl⟩ := h
    exact .unchanged
  next => exact applyAfterPrefix_step h

theorem applyLtcHeaderBatch_step {retarget : RetargetParams}
    (h : applyLtcHeaderBatch C headers blockTime r anchor retarget = .ok (u, r')) : RelayStep r u r' := by
  simp only [applyLtcHeaderBatch, bind_eq_ok, exists_unit] at h
  obtain ⟨first, -, -, -, -, start, -, h⟩ := h
  exact applyAfterPrefix_step h

theorem fst_heights (staged : List (Hash32 × HeaderEntry)) :
    (staged.map fun p => (p.1, p.2.height)).map Prod.fst = staged.map Prod.fst := by
  simp

theorem RelayStep.undo (hk : r.SameKeys) (h : RelayStep r u r') : undoRelayUpdate u r' = r := by
  cases h with
  | unchanged => simp [undoRelayUpdate, noHeadersAdded]
  | @extended anchor staged hne hf =>
    have hheads := eraseAll_insertAll hf.unknown
    have hheights : eraseAll (insertAll r.heights (staged.map fun p => (p.1, p.2.height)))
        (staged.map Prod.fst) = r.heights := by
      rw [← fst_heights]
      apply eraseAll_insertAll
      intro k hm
      rw [fst_heights] at hm
      rw [hk k]
      exact hf.unknown k hm
    simp [undoRelayUpdate, commitStaged, hheads, hheights]

theorem RelayStep.sameKeys (hk : r.SameKeys) (h : RelayStep r u r') : r'.SameKeys := by
  cases h with
  | unchanged => exact hk
  | extended hne hf =>
    intro k
    simp only [commitStaged]
    rw [mem_insertAll, mem_insertAll, fst_heights, hk k]

theorem undoRelayUpdate_sameKeys (hk : r.SameKeys) (u : RelayUpdate) :
    (undoRelayUpdate u r).SameKeys := by
  intro k
  simp only [undoRelayUpdate, mem_eraseAll, hk k]

theorem RelayStep.changed_iff (h : RelayStep r u r') : r' ≠ r ↔ u.headersAdded ≠ [] := by
  cases h with
  | unchanged => simp [noHeadersAdded]
  | @extended anchor staged hne hf =>
    have hadd : staged.map Prod.fst ≠ [] := by simpa using hne
    simp only [hadd, ne_eq, not_false_iff, iff_true]
    intro he
    obtain ⟨p, rest, rfl⟩ := List.exists_cons_of_ne_nil hne
    have hp : p.1 ∈ (commitStaged r anchor (p :: rest)).headers := by
      exact mem_insertAll.mpr (by simp)
    rw [he] at hp
    exact hf.unknown p.1 (by simp) hp

end IriumConsensus
