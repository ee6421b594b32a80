import IriumConsensus.ApplyRules
import IriumConsensus.Lib.Journal

namespace IriumConsensus

open Checks FinMaps Journals

variable {e : HeaderEntry} {header : ForeignHeader} {headers : List ForeignHeader}

structure RelaySetup where
  rules : RelayRules
  anchor : Anchor

def ChainParams.relaySetup (P : ChainParams) : ForeignChain → RelaySetup
  | .btc => ⟨btcRules, P.spvAnchor .btc⟩
  | .ltc => ⟨ltcRules P.ltcRetargetParams, P.spvAnchor .ltc⟩

def Anchor.cursor (a : Anchor) : Cursor := ⟨a.hash, a.height, workForBits a.bits⟩

/-- A header that others may be built on: the anchor or a stored one. -/
inductive Point (anchor : Anchor) (m : FinMap Hash32 HeaderEntry) : Cursor → Prop
  | anchor : Point anchor m anchor.cursor
  | stored {hash : Hash32} {e : HeaderEntry} (h : m.lookup hash = some e) :
      Point anchor m ⟨hash, e.height, e.totalWork⟩

inductive Reaches (anchor : Anchor) (m : FinMap Hash32 HeaderEntry) : Hash32 → Prop
  | anchor : Reaches anchor m anchor.hash
  | link {hash : Hash32} {e : HeaderEntry} (h : m.lookup hash = some e)
      (hp : Reaches anchor m e.header.prevHash) : Reaches anchor m hash

/-- The entry follows the point: one higher, its own work added. -/
structure Extends (cur : Cursor) (e : HeaderEntry) : Prop where
  links : e.header.prevHash = cur.hash
  height : e.height = cur.height + 1
  work : e.totalWork = cur.work + workForBits e.header.bits

/-- The stored headers form a tree with the anchor as its root. -/
structure Rooted (C : Crypto) (anchor : Anchor) (m : FinMap Hash32 HeaderEntry) : Prop where
  keyed : ∀ hash e, m.lookup hash = some e → hash = e.header.blockHash C
  parent : ∀ hash e, m.lookup hash = some e → ∃ cur, Point anchor m cur ∧ Extends cur e
  reaches : ∀ hash ∈ m, Reaches anchor m hash

def Heaviest (m : FinMap Hash32 HeaderEntry) (work : Nat) : Prop :=
  ∀ hash e, m.lookup hash = some e → e.totalWork ≤ work

/-- There is no tip while nothing beats the anchor; otherwise it is a header of the greatest work. -/
def Relay.BestTip (anchor : Anchor) (r : Relay) : Prop :=
  (r.tip = none ∧ Heaviest r.headers (workForBits anchor.bits)) ∨
    ∃ hash e, r.tip = some hash ∧ r.headers.lookup hash = some e ∧ r.tipHeight = e.height ∧
      Heaviest r.headers e.totalWork

structure Relay.Consistent (C : Crypto) (anchor : Anchor) (r : Relay) : Prop where
  heights : ∀ hash, r.heights.lookup hash = (r.headers.lookup hash).map HeaderEntry.height
  rooted : Rooted C anchor r.headers
  bestTip : r.BestTip anchor

variable {C : Crypto} {R : RelayRules} {r r' : Relay} {anchor : Anchor} {blockTime : UInt32}
  {u : RelayUpdate} {m m' : FinMap Hash32 HeaderEntry} {cur found : Cursor} {staged : List (Hash32 × HeaderEntry)}
  {i w : Nat} {first : ForeignHeader} {rest : List ForeignHeader} {S : RelaySetup}

theorem Point.mono (h : Point anchor m cur) (hs : Submap m m') : Point anchor m' cur := by
  cases h with
  | anchor => exact .anchor
  | stored h => exact .stored (hs _ _ h)

theorem Reaches.mono {hash : Hash32} (h : Reaches anchor m hash) (hs : Submap m m') :
    Reaches anchor m' hash := by
  induction h with
  | anchor => exact .anchor
  | link h _ ih => exact .link (hs _ _ h) ih

theorem Rooted.point_reaches (hr : Rooted C anchor m) (h : Point anchor m cur) : Reaches anchor m cur.hash := by
  cases h with
  | anchor => exact .anchor
  | stored h => exact hr.reaches _ (Finmap.mem_of_lookup_eq_some h)

theorem rooted_empty : Rooted C anchor ∅ where
  keyed hash e h := by simp at h
  parent hash e h := by simp at h
  reaches hash h := absurd h Finmap.notMem_empty

theorem Rooted.insert (hr : Rooted C anchor m) (hc : Point anchor m cur) (he : Extends cur e)
    (hn : e.header.blockHash C ∉ m) : Rooted C anchor (m.insert (e.header.blockHash C) e) := by
  have hsub : Submap m (m.insert (e.header.blockHash C) e) := submap_insert_of_notMem hn
  have hself : (m.insert (e.header.blockHash C) e).lookup (e.header.blockHash C) = some e :=
    Finmap.lookup_insert _
  constructor
  case keyed =>
    intro hash e' h
    rw [lookup_insert_eq] at h
    split at h
    next hh =>
      obtain rfl := Option.some.inj h
      exact hh
    next => exact hr.keyed hash e' h
  case parent =>
    intro hash e' h
    rw [lookup_insert_eq] at h
    split at h
    next =>
      obtain rfl := Option.some.inj h
      exact ⟨cur, hc.mono hsub, he⟩
    next =>
      obtain ⟨p, hp, hx⟩ := hr.parent hash e' h
      exact ⟨p, hp.mono hsub, hx⟩
  case reaches =>
    intro hash hm
    rcases Finmap.mem_insert.mp hm with rfl | hm
    · refine .link hself ?_
      rw [he.links]
      exact (hr.point_reaches hc).mono hsub
    · exact (hr.reaches hash hm).mono hsub

structure StagedOn (C : Crypto) (R : RelayRules) (r : Relay) (anchor : Anchor)
    (staged : List (Hash32 × HeaderEntry)) (cur : Cursor) (header : ForeignHeader) (e : HeaderEntry) : Prop where
  header_eq : e.header = header
  extend : Extends cur e
  unknown : header.blockHash C ∉ insertAll r.headers staged
  bits : expectedBitsForV R (r.headers.entries.card + staged.length + 1) e.height cur.hash
      (viewGet r.headers staged) anchor = .error .windowBeforeAnchor ∨
    ∃ expected, expectedBitsForV R (r.headers.entries.card + staged.length + 1) e.height cur.hash
        (viewGet r.headers staged) anchor = .ok expected ∧
      Target.toTarget ⟨header.bits⟩ = Target.toTarget ⟨expected⟩

theorem stageHeader_stagedOn (h : stageHeader C R r anchor blockTime staged i cur header = .ok e) :
    StagedOn C R r anchor staged cur header e := by
  simp only [stageHeader, bind_eq_ok, exists_unit, failIf_eq_ok, not_not] at h
  obtain ⟨hlink, hr, hs, -, h⟩ := h
  have hnew : header.blockHash C ∉ insertAll r.headers staged := by
    rw [mem_insertAll]
    exact not_or.mpr ⟨hr, hs⟩
  split at h
  next expected he =>
    simp only [bind_eq_ok, exists_unit, failIf_eq_ok, pure_eq_ok, not_not] at h
    obtain ⟨hbits, -, -, rfl⟩ := h
    exact ⟨rfl, ⟨hlink, rfl, rfl⟩, hnew, .inr ⟨expected, he, hbits⟩⟩
  next he =>
    simp only [bind_eq_ok, exists_unit, pure_eq_ok] at h
    obtain ⟨-, -, rfl⟩ := h
    exact ⟨rfl, ⟨hlink, rfl, rfl⟩, hnew, .inl he⟩
  next => simp at h

def LastHeaviest (staged : List (Hash32 × HeaderEntry)) : Prop :=
  ∃ last ∈ staged.getLast?, ∀ p ∈ staged, p.2.totalWork ≤ last.2.totalWork

/-- What holds of the headers staged so far and of the header the next one must extend. -/
structure Staging (C : Crypto) (r : Relay) (anchor : Anchor) (staged : List (Hash32 × HeaderEntry))
    (cur : Cursor) : Prop where
  rooted : Rooted C anchor (insertAll r.headers staged)
  point : Point anchor (insertAll r.headers staged) cur
  le_work : ∀ p ∈ staged, p.2.totalWork ≤ cur.work

theorem Staging.step (h : Staging C r anchor staged cur)
    (hs : StagedOn C R r anchor staged cur header e) :
    Staging C r anchor (staged ++ [(header.blockHash C, e)]) ⟨header.blockHash C, e.height, e.totalWork⟩ where
  rooted := by
    obtain rfl := hs.header_eq
    rw [insertAll_concat]
    exact h.rooted.insert h.point hs.extend hs.unknown
  point := by
    rw [insertAll_concat]
    exact .stored (Finmap.lookup_insert _)
  le_work := by
    intro p hp
    rw [List.mem_append, List.mem_singleton] at hp
    rcases hp with hp | rfl
    · have hle := h.le_work p hp
      have hw := hs.extend.work
      dsimp only
      omega
    · exact le_refl _

theorem stageHeaders_staging {hs : List ForeignHeader} {out : List (Hash32 × HeaderEntry)}
    (hst : Staging C r anchor staged cur) (hne : hs ≠ [])
    (h : stageHeaders C R r anchor blockTime staged i cur hs = .ok out) :
    Rooted C anchor (insertAll r.headers out) ∧ LastHeaviest out := by
  refine Exists.elim (stageHeaders_induct (I := fun out cur rest => Staging C r anchor out cur ∧
    (rest = hs ∨ LastHeaviest out)) ?_ ⟨hst, .inl rfl⟩ h) fun _ hout => ⟨hout.1.rooted, hout.2.resolve_left hne.symm⟩
  rintro out i cur header rest e he ⟨hst, -⟩
  have hnext := hst.step (stageHeader_stagedOn he)
  exact ⟨hnext, .inr ⟨(header.blockHash C, e), by simp, hnext.le_work⟩⟩

theorem startCursor_point (h : startCursor r anchor first = .ok cur) :
    Point anchor r.headers cur := by
  unfold startCursor at h
  split at h
  next ha =>
    obtain rfl := Except.ok.inj h
    rw [ha]
    exact .anchor
  next =>
    split at h
    next parent hp =>
      obtain rfl := Except.ok.inj h
      exact .stored hp
    next => simp at h

theorem knownNext_point (anchor : Anchor) {next : Cursor} (h : knownNext C r cur header = some next) :
    Point anchor r.headers next ∧ next.height = cur.height + 1 := by
  simp only [knownNext, refuse_eq_some] at h
  obtain ⟨-, h⟩ := h
  cases hl : r.headers.lookup (header.blockHash C) with
  | none => simp [hl] at h
  | some e =>
    simp only [hl, refuse_eq_some, not_or, not_not, Option.some.injEq] at h
    obtain ⟨⟨hh, -⟩, rfl⟩ := h
    rw [← hh]
    exact ⟨.stored hl, rfl⟩

theorem knownPrefix_point (hp : Point anchor r.headers cur) (h : knownPrefix C r cur headers = (found, rest)) :
    Point anchor r.headers found ∧
      ∃ known, headers.length = known + rest.length ∧ found.height = cur.height + known := by
  induction headers generalizing cur with
  | nil =>
    obtain ⟨rfl, rfl⟩ := Prod.mk.inj h
    exact ⟨hp, 0, rfl, rfl⟩
  | cons header hs ih =>
    unfold knownPrefix at h
    cases hn : knownNext C r cur header with
    | none =>
      simp only [hn, Prod.mk.injEq] at h
      obtain ⟨rfl, rfl⟩ := h
      exact ⟨hp, 0, by simp, rfl⟩
    | some next =>
      simp only [hn] at h
      obtain ⟨hpoint, hheight⟩ := knownNext_point anchor hn
      obtain ⟨hfound, known, hlen, hk⟩ := ih hpoint h
      refine ⟨hfound, known + 1, ?_, by omega⟩
      rw [List.length_cons]
      omega

/-- What a batch can do to a relay: nothing, or the headers behind the known ones are staged from a point
and committed together. -/
inductive BatchStep (C : Crypto) (S : RelaySetup) (r : Relay) (headers : List ForeignHeader) :
    RelayUpdate → Relay → Prop
  | known : BatchStep C S r headers (noHeadersAdded r) r
  | staged {blockTime : UInt32} {first : ForeignHeader} {start found : Cursor} {rest : List ForeignHeader}
      {i : Nat} {out : List (Hash32 × HeaderEntry)} (hfirst : headers.head? = some first)
      (hstart : startCursor r S.anchor first = .ok start)
      (hfound : knownPrefix C r start headers = (found, rest)) (hne : rest ≠ [])
      (hout : stageHeaders C S.rules r S.anchor blockTime [] i found rest = .ok out) :
      BatchStep C S r headers ⟨r.tip, r.tipHeight, out.map Prod.fst⟩ (commitStaged r S.anchor out)

theorem applyAfterPrefix_batchStep {start : Cursor} (hfirst : headers.head? = some first)
    (hstart : startCursor r S.anchor first = .ok start) (hfound : knownPrefix C r start headers = (found, rest))
    (h : applyAfterPrefix C S.rules r S.anchor blockTime headers found rest = .ok (u, r')) :
    BatchStep C S r headers u r' := by
  unfold applyAfterPrefix at h
  by_cases hrest : rest = []
  · simp only [hrest, ↓reduceIte, pure_eq_ok, Prod.mk.injEq] at h
    obtain ⟨rfl, rfl⟩ := h
    exact .known
  · simp only [hrest, ↓reduceIte, bind_eq_ok, exists_unit, pure_eq_ok, Prod.mk.injEq] at h
    obtain ⟨-, out, hout, rfl, rfl⟩ := h
    exact .staged hfirst hstart hfound hrest hout

theorem applyHeaderBatch_batchStep {P : ChainParams} {chain : ForeignChain}
    (h : P.applyHeaderBatch C chain headers blockTime r = .ok (u, r')) :
    BatchStep C (P.relaySetup chain) r headers u r' := by
  cases chain with
  | btc =>
    simp only [ChainParams.applyHeaderBatch, applyBtcHeaderBatch, bind_eq_ok, exists_unit, orFail_eq_ok] at h
    obtain ⟨first, hfirst, -, start, hstart, h⟩ := h
    split at h
    next =>
      simp only [pure_eq_ok, Prod.mk.injEq] at h
      obtain ⟨rfl, rfl⟩ := h
      exact .known
    next => exact applyAfterPrefix_batchStep (S := P.relaySetup .btc) hfirst hstart rfl h
  | ltc =>
    simp only [ChainParams.applyHeaderBatch, applyLtcHeaderBatch, bind_eq_ok, exists_unit, orFail_eq_ok] at h
    obtain ⟨first, hfirst, -, -, -, start, hstart, h⟩ := h
    exact applyAfterPrefix_batchStep (S := P.relaySetup .ltc) hfirst hstart rfl h

theorem Heaviest.mono {w' : Nat} (h : Heaviest m w) (hw : w ≤ w') : Heaviest m w' :=
  fun hash e he => (h hash e he).trans hw

theorem Heaviest.insertAll (h : Heaviest m w) (hs : ∀ p ∈ staged, p.2.totalWork ≤ w) :
    Heaviest (insertAll m staged) w := by
  intro hash e he
  by_cases hm : hash ∈ staged.map Prod.fst
  · obtain ⟨v, hv, hl⟩ := lookup_insertAll_of_mem (m := m) hm
    obtain rfl := Option.some.inj (hl.symm.trans he)
    exact hs _ hv
  · rw [lookup_insertAll_of_notMem hm] at he
    exact h hash e he

theorem Relay.BestTip.commitStaged (ht : r.BestTip anchor) (hf : Fresh r staged) (hl : LastHeaviest staged) :
    (commitStaged r anchor staged).BestTip anchor := by
  obtain ⟨⟨hash, e⟩, hlast, hle⟩ := hl
  have hmem : (hash, e) ∈ staged := List.mem_of_getLast? hlast
  have hstored : (insertAll r.headers staged).lookup hash = some e := lookup_insertAll_of_nodup hf.nodup hmem
  -- either way the tip keeps its place or hands it to the last header, depending on one number
  have hmove : ∀ w, Heaviest r.headers w → w < e.totalWork → Heaviest (insertAll r.headers staged) e.totalWork :=
    fun w hw hlt => (hw.mono hlt.le).insertAll hle
  have hkeep : ∀ w, Heaviest r.headers w → ¬ w < e.totalWork → Heaviest (insertAll r.headers staged) w :=
    fun w hw hlt => hw.insertAll fun p hp => (hle p hp).trans (not_lt.mp hlt)
  rcases ht with ⟨hnone, hw⟩ | ⟨t, et, htip, het, hheight, hw⟩
  · by_cases hlt : workForBits anchor.bits < e.totalWork
    · refine .inr ⟨hash, e, ?_, hstored, ?_, hmove _ hw hlt⟩ <;>
        simp [IriumConsensus.commitStaged, tipAfter, hnone, Option.mem_def.mp hlast, hlt]
    · refine .inl ⟨?_, hkeep _ hw hlt⟩
      simp [IriumConsensus.commitStaged, tipAfter, hnone, Option.mem_def.mp hlast, hlt]
  · have hsame : (insertAll r.headers staged).lookup t = some et := by
      rw [lookup_insertAll_of_notMem fun hm => hf.unknown t hm (Finmap.mem_of_lookup_eq_some het), het]
    by_cases hlt : et.totalWork < e.totalWork
    · refine .inr ⟨hash, e, ?_, hstored, ?_, hmove _ hw hlt⟩ <;>
        simp [IriumConsensus.commitStaged, tipAfter, htip, hsame, Option.mem_def.mp hlast, hlt]
    · refine .inr ⟨t, et, ?_, hsame, ?_, hkeep _ hw hlt⟩ <;>
        simp [IriumConsensus.commitStaged, tipAfter, htip, hsame, Option.mem_def.mp hlast, hlt, hheight]

theorem Relay.Consistent.step (h : r.Consistent C S.anchor) (hs : BatchStep C S r headers u r') :
    r'.Consistent C S.anchor := by
  cases hs with
  | known => exact h
  | @staged blockTime first start found rest i out hfirst hstart hfound hne hout =>
    have hfresh := (stageHeaders_fresh ⟨by simp, by simp⟩ hout).1
    have hpoint := (knownPrefix_point (startCursor_point hstart) hfound).1
    obtain ⟨hrooted, hlast⟩ := stageHeaders_staging ⟨h.rooted, hpoint, by simp⟩ hne hout
    refine ⟨fun hash => ?_, hrooted, h.bestTip.commitStaged hfresh hlast⟩
    exact lookup_insertAll_map HeaderEntry.height h.heights out hash

theorem Relay.Consistent.sameKeys (h : r.Consistent C anchor) : r.SameKeys := by
  intro hash
  rw [← Finmap.lookup_isSome, ← Finmap.lookup_isSome, h.heights, Option.isSome_map]

theorem Relay.empty_consistent : Relay.empty.Consistent C anchor where
  heights hash := by simp [Relay.empty]
  rooted := rooted_empty
  bestTip := .inl ⟨rfl, fun hash e h => by simp [Relay.empty] at h⟩

structure HeaderBatch where
  headers : List ForeignHeader
  blockTime : UInt32

def relayRun (C : Crypto) (P : ChainParams) (chain : ForeignChain) (calls : List (Call HeaderBatch)) :
    Journal Relay RelayUpdate :=
  run (fun b r => P.applyHeaderBatch C chain b.headers b.blockTime r) undoRelayUpdate ⟨Relay.empty, []⟩ calls

theorem relayRun_state_consistent (C : Crypto) (P : ChainParams) (chain : ForeignChain)
    (calls : List (Call HeaderBatch)) :
    (relayRun C P chain calls).state.Consistent C (P.spvAnchor chain) := by
  have hanchor : (P.relaySetup chain).anchor = P.spvAnchor chain := by cases chain <;> rfl
  rw [← hanchor]
  refine run_inv (Relay.Consistent C (P.relaySetup chain).anchor) (fun _ _ => True) Relay.empty_consistent rfl ?_ ?_
  · exact meets_of_forall fun _ _ => trivial
  · intro b r u r' _ hr ha
    exact ⟨hr.step (applyHeaderBatch_batchStep ha), (applyHeaderBatch_step ha).undo hr.sameKeys⟩

/-- Whatever is called, the stored headers form a tree on the anchor with heights and work that add up and the
tip is one of the greatest work. A further batch that fails changes nothing, and undoing the record of one
that succeeds restores the relay. -/
theorem relayRun_consistent (C : Crypto) (P : ChainParams) (chain : ForeignChain)
    (calls : List (Call HeaderBatch)) :
    (relayRun C P chain calls).state.SameKeys ∧
      (relayRun C P chain calls).state.Consistent C (P.spvAnchor chain) ∧
      (∀ b e, P.applyHeaderBatch C chain b.headers b.blockTime (relayRun C P chain calls).state = .error e →
        relayRun C P chain (calls ++ [.command b]) = relayRun C P chain calls) ∧
      ∀ b u r', P.applyHeaderBatch C chain b.headers b.blockTime (relayRun C P chain calls).state = .ok (u, r') →
        undoRelayUpdate u r' = (relayRun C P chain calls).state ∧
        relayRun C P chain (calls ++ [.command b] ++ [.undo]) = relayRun C P chain calls := by
  have hc := relayRun_state_consistent C P chain calls
  refine ⟨hc.sameKeys, hc, ?_, ?_⟩
  · intro b e he
    exact (run_concat _).trans (step_error he)
  · intro b u r' ha
    have hu := (applyHeaderBatch_step ha).undo hc.sameKeys
    refine ⟨hu, ?_⟩
    rw [relayRun, run_concat, run_concat]
    exact step_undo ha hu

end IriumConsensus
