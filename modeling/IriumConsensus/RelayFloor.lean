import IriumConsensus.CompactTarget
import IriumConsensus.FailedConnect
import IriumConsensus.RelayInvariant

namespace IriumConsensus

open ByteCodec Checks FinMaps Journals

variable {e : HeaderEntry} {hash : Hash32}

def parentBits (anchor : Anchor) (m : FinMap Hash32 HeaderEntry) (hash : Hash32) : Option UInt32 :=
  if hash = anchor.hash then some anchor.bits else (m.lookup hash).map fun e => e.header.bits

/-- The header is not easier than the limit of its chain, nor more than four times as easy as its parent;
between two retarget heights it is exactly as hard. -/
structure AboveFloor (S : RelaySetup) (m : FinMap Hash32 HeaderEntry) (e : HeaderEntry) : Prop where
  le_max : Target.toTarget ⟨e.header.bits⟩ ≤ Target.toTarget ⟨S.rules.retarget.maxTargetBits⟩
  parent : ∃ bits, parentBits S.anchor m e.header.prevHash = some bits ∧
    Target.toTarget ⟨e.header.bits⟩ ≤ 4 * Target.toTarget ⟨bits⟩ ∧
    (e.height % 2016 ≠ 0 → Target.toTarget ⟨e.header.bits⟩ = Target.toTarget ⟨bits⟩)

def Floor (S : RelaySetup) (m : FinMap Hash32 HeaderEntry) : Prop :=
  ∀ hash e, m.lookup hash = some e → AboveFloor S m e

def Unanchored (S : RelaySetup) (height : Nat) : Prop :=
  height % S.rules.retarget.window = 0 ∧ S.rules.firstHeight height < S.anchor.height

/-- The heights that the headers of a batch are given are none of those. -/
def HeaderBatch.Anchored (S : RelaySetup) (b : HeaderBatch) (r : Relay) : Prop :=
  ∀ first start, b.headers.head? = some first → startCursor r S.anchor first = .ok start →
    ∀ i < b.headers.length, ¬ Unanchored S (start.height + 1 + i)

structure RelayRules.Standard (R : RelayRules) : Prop where
  window : R.retarget.window = 2016
  multiplier : R.retarget.maxTimespanMultiplier = 4
  timespan : 0 < R.retarget.expectedTimespanSecs
  maxTarget : Target.toTarget ⟨R.retarget.maxTargetBits⟩ < 256 ^ 32

theorem btcRules_standard : btcRules.Standard := ⟨rfl, rfl, by decide, by decide⟩

theorem ltcRules_standard : (ltcRules litecoinRetarget).Standard := ⟨rfl, rfl, by decide, by decide⟩

section

variable {C : Crypto} {R : RelayRules} {S : RelaySetup} {r r' : Relay} {anchor : Anchor} {u : RelayUpdate}
  {m m' : FinMap Hash32 HeaderEntry} {cur : Cursor} {staged : List (Hash32 × HeaderEntry)}

theorem viewGet_eq_lookup (hf : Fresh r staged) (hash : Hash32) :
    viewGet r.headers staged hash = (insertAll r.headers staged).lookup hash := by
  unfold viewGet
  by_cases hm : hash ∈ staged.map Prod.fst
  · obtain ⟨e, he, hl⟩ := lookup_insertAll_of_mem (m := r.headers) hm
    rw [Finmap.lookup_eq_none.mpr (hf.unknown hash hm), hl]
    obtain ⟨p, hp⟩ := Option.isSome_iff_exists.mp
      (List.find?_isSome.mpr ⟨(hash, e), List.mem_reverse.mpr he, by simp⟩ :
        (staged.reverse.find? fun p => p.1 = hash).isSome)
    have hpm := List.mem_reverse.mp (List.mem_of_find?_eq_some hp)
    have hph : p.1 = hash := by simpa using List.find?_some hp
    rw [hp, List.inj_on_of_nodup_map hf.nodup hpm he hph]
    rfl
  · rw [lookup_insertAll_of_notMem hm]
    cases r.headers.lookup hash with
    | some e => rfl
    | none =>
      have hnone : (staged.reverse.find? fun p => p.1 = hash) = none := by
        rw [List.find?_eq_none]
        intro p hp
        simp only [decide_eq_true_eq]
        rintro rfl
        exact hm (List.mem_map_of_mem (List.mem_reverse.mp hp))
      rw [hnone]
      rfl

theorem findAncestorTimeFrom_ne {view : Hash32 → Option HeaderEntry} {target fuel : Nat} :
    findAncestorTimeFrom view anchor target fuel hash ≠ .error .windowBeforeAnchor := by
  induction fuel generalizing hash with
  | zero => simp [findAncestorTimeFrom]
  | succ fuel ih =>
    unfold findAncestorTimeFrom
    split
    next => simp
    next =>
      split
      next => simp
      next e _ =>
        split
        next => simp
        next =>
          split
          next => simp
          next => exact ih

variable {fuel height : Nat} {parent : Hash32} {view : Hash32 → Option HeaderEntry} {bits time expected : UInt32}

theorem findAncestorTimeAtHeightV_ne {target : Nat} :
    findAncestorTimeAtHeightV fuel parent target view anchor ≠ .error .windowBeforeAnchor := by
  unfold findAncestorTimeAtHeightV
  split
  next => simp
  next => exact findAncestorTimeFrom_ne

def retargetFrom (R : RelayRules) (fuel height : Nat) (parent : Hash32) (view : Hash32 → Option HeaderEntry)
    (anchor : Anchor) (bits time : UInt32) : Except RetargetError UInt32 := do
  if height % R.retarget.window ≠ 0 then return bits
  if R.firstHeight height < anchor.height then throw .windowBeforeAnchor
  let firstTime ← findAncestorTimeAtHeightV fuel parent (R.firstHeight height) view anchor
  let timespan := clampTimespan R.retarget (time.toNat - firstTime)
  let newTarget := Target.toTarget ⟨bits⟩ * timespan / R.retarget.expectedTimespanSecs
  return targetToCompactBits (min newTarget (Target.toTarget ⟨R.retarget.maxTargetBits⟩))

theorem expectedBitsForV_eq (h0 : height ≠ 0) :
    expectedBitsForV R fuel height parent view anchor =
      if parent = anchor.hash then retargetFrom R fuel height parent view anchor anchor.bits anchor.time
      else match view parent with
        | some e => retargetFrom R fuel height parent view anchor e.header.bits e.header.time
        | none => .error .parentUnknown := by
  unfold expectedBitsForV
  rw [if_neg h0]
  by_cases hp : parent = anchor.hash
  · simp only [hp, ↓reduceIte]
    rfl
  · simp only [hp, ↓reduceIte]
    cases view parent <;> rfl

theorem retargetFrom_skipped
    (h : retargetFrom R fuel height parent view anchor bits time = .error .windowBeforeAnchor) :
    Unanchored ⟨R, anchor⟩ height := by
  unfold retargetFrom at h
  by_cases hw : height % R.retarget.window = 0
  · refine ⟨hw, ?_⟩
    by_contra hlt
    simp only [hw, ne_eq, not_true_eq_false, ↓reduceIte, show ¬ R.firstHeight height < anchor.height from hlt] at h
    cases ht : findAncestorTimeAtHeightV fuel parent (R.firstHeight height) view anchor with
    | ok t => simp [ht, bind, Except.bind, pure, Except.pure] at h
    | error e =>
      rw [ht] at h
      obtain rfl := Except.error.inj h
      exact findAncestorTimeAtHeightV_ne ht
  · simp [hw, pure, Except.pure] at h

theorem clampTimespan_le (p : RetargetParams) (actual : Nat) :
    clampTimespan p actual ≤ p.expectedTimespanSecs * p.maxTimespanMultiplier :=
  (min_le_right _ _).trans (min_le_left _ _)

def Follows (R : RelayRules) (height : Nat) (bits expected : UInt32) : Prop :=
  if height % 2016 = 0 then Target.toTarget ⟨expected⟩ ≤ 4 * Target.toTarget ⟨bits⟩ ∧
    Target.toTarget ⟨expected⟩ ≤ Target.toTarget ⟨R.retarget.maxTargetBits⟩
  else expected = bits

theorem retargetFrom_follows (hR : R.Standard)
    (h : retargetFrom R fuel height parent view anchor bits time = .ok expected) :
    Follows R height bits expected := by
  unfold retargetFrom at h
  rw [hR.window] at h
  unfold Follows
  by_cases hw : height % 2016 = 0
  · rw [if_pos hw]
    simp only [hw, ne_eq, not_true_eq_false, ↓reduceIte] at h
    split at h
    next => simp at h
    next =>
      simp only [bind_eq_ok, pure_eq_ok] at h
      obtain ⟨firstTime, -, rfl⟩ := h
      have hmax := lt_compactLimit (two_pow_eight_mul 32 ▸ hR.maxTarget)
      rw [targetToCompactBits_eq]
      refine (fun hle => ⟨hle.trans ?_, hle.trans (min_le_right _ _)⟩)
        (toTarget_fromTarget_le (lt_of_le_of_lt (min_le_right _ _) hmax))
      refine (min_le_left _ _).trans (Nat.div_le_of_le_mul ?_)
      calc Target.toTarget ⟨bits⟩ * clampTimespan R.retarget (time.toNat - firstTime)
          ≤ Target.toTarget ⟨bits⟩ * (R.retarget.expectedTimespanSecs * 4) := by
            rw [← hR.multiplier]
            exact Nat.mul_le_mul_left _ (clampTimespan_le _ _)
        _ = R.retarget.expectedTimespanSecs * (4 * Target.toTarget ⟨bits⟩) := by
            rw [Nat.mul_left_comm, Nat.mul_comm (Target.toTarget _) 4]
  · rw [if_neg hw]
    simp only [hw, ne_eq, not_false_eq_true, ↓reduceIte, pure_eq_ok] at h
    exact h.symm

theorem expectedBitsForV_skipped (h0 : height ≠ 0)
    (h : expectedBitsForV R fuel height parent view anchor = .error .windowBeforeAnchor) :
    Unanchored ⟨R, anchor⟩ height := by
  rw [expectedBitsForV_eq h0] at h
  split at h
  next => exact retargetFrom_skipped h
  next =>
    split at h
    next => exact retargetFrom_skipped h
    next => simp at h

theorem expectedBitsForV_follows (hR : R.Standard) (hf : Fresh r staged) (h0 : height ≠ 0)
    (h : expectedBitsForV R fuel height parent (viewGet r.headers staged) anchor = .ok expected) :
    ∃ bits, parentBits anchor (insertAll r.headers staged) parent = some bits ∧
      Follows R height bits expected := by
  rw [expectedBitsForV_eq h0, viewGet_eq_lookup hf] at h
  unfold parentBits
  split at h
  next hp => exact ⟨anchor.bits, by rw [if_pos hp], retargetFrom_follows hR h⟩
  next hp =>
    split at h
    next e he => exact ⟨e.header.bits, by rw [if_neg hp, he]; rfl, retargetFrom_follows hR h⟩
    next => simp at h

theorem parentBits_mono (h : parentBits anchor m hash = some bits) (hs : Submap m m') :
    parentBits anchor m' hash = some bits := by
  unfold parentBits at h ⊢
  split at h
  next hp => rwa [if_pos hp]
  next hp =>
    obtain ⟨e, he, rfl⟩ := Option.map_eq_some_iff.mp h
    rw [if_neg hp, hs _ _ he]
    rfl

theorem AboveFloor.mono (h : AboveFloor S m e) (hs : Submap m m') : AboveFloor S m' e where
  le_max := h.le_max
  parent := by
    obtain ⟨bits, hb, hrest⟩ := h.parent
    exact ⟨bits, parentBits_mono hb hs, hrest⟩

theorem Floor.parentBits_le (hfl : Floor S m)
    (ha : Target.toTarget ⟨S.anchor.bits⟩ ≤ Target.toTarget ⟨S.rules.retarget.maxTargetBits⟩)
    (h : parentBits S.anchor m hash = some bits) :
    Target.toTarget ⟨bits⟩ ≤ Target.toTarget ⟨S.rules.retarget.maxTargetBits⟩ := by
  unfold parentBits at h
  split at h
  next => rwa [← Option.some.inj h]
  next =>
    obtain ⟨e, he, rfl⟩ := Option.map_eq_some_iff.mp h
    exact (hfl _ _ he).le_max

theorem StagedOn.aboveFloor {header : ForeignHeader} (hS : S.rules.Standard)
    (ha : Target.toTarget ⟨S.anchor.bits⟩ ≤ Target.toTarget ⟨S.rules.retarget.maxTargetBits⟩)
    (hfl : Floor S (insertAll r.headers staged)) (hf : Fresh r staged)
    (hs : StagedOn C S.rules r S.anchor staged cur header e) (hg : ¬ Unanchored S e.height) :
    AboveFloor S (insertAll r.headers staged) e := by
  have h0 : e.height ≠ 0 := by
    have := hs.extend.height
    omega
  rcases hs.bits with hskip | ⟨expected, hexp, heq⟩
  · exact absurd (expectedBitsForV_skipped h0 hskip) hg
  · obtain ⟨bits, hb, hfollows⟩ := expectedBitsForV_follows hS hf h0 hexp
    rw [← hs.extend.links] at hb
    rw [← hs.header_eq] at heq
    have hparent := hfl.parentBits_le ha hb
    unfold Follows at hfollows
    split at hfollows
    next hw =>
      rw [← heq] at hfollows
      exact ⟨hfollows.2, bits, hb, hfollows.1, fun hn => absurd hw hn⟩
    next hw =>
      rw [hfollows] at heq
      exact ⟨heq.trans_le hparent, bits, hb, by omega, fun _ => heq⟩

theorem Floor.insert (hfl : Floor S m) (he : AboveFloor S m e) (hn : hash ∉ m) :
    Floor S (m.insert hash e) := by
  have hsub : Submap m (m.insert hash e) := submap_insert_of_notMem hn
  intro hash' e' h
  rw [lookup_insert_eq] at h
  split at h
  next =>
    obtain rfl := Option.some.inj h
    exact he.mono hsub
  next => exact (hfl hash' e' h).mono hsub

theorem stageHeaders_floor {blockTime : UInt32} {hs : List ForeignHeader} {out : List (Hash32 × HeaderEntry)}
    {i : Nat} (hS : S.rules.Standard)
    (ha : Target.toTarget ⟨S.anchor.bits⟩ ≤ Target.toTarget ⟨S.rules.retarget.maxTargetBits⟩)
    (hf : Fresh r staged) (hfl : Floor S (insertAll r.headers staged))
    (hg : ∀ n < hs.length, ¬ Unanchored S (cur.height + 1 + n))
    (h : stageHeaders C S.rules r S.anchor blockTime staged i cur hs = .ok out) :
    Floor S (insertAll r.headers out) := by
  refine Exists.elim (stageHeaders_induct (I := fun out cur rest => Fresh r out ∧ Floor S (insertAll r.headers out) ∧
    ∀ n < rest.length, ¬Unanchored S (cur.height + 1 + n)) ?_ ⟨hf, hfl, hg⟩ h) fun _ hout => hout.2.1
  rintro out i cur header rest e he ⟨hf, hfl, hg⟩
  have hon := stageHeader_stagedOn he
  have hheight : e.height = cur.height + 1 := hon.extend.height
  obtain ⟨hr, hst⟩ := stageHeader_new he
  refine ⟨hf.snoc hr hst, ?_, fun n hn => ?_⟩
  · rw [insertAll_concat]
    refine hfl.insert (hon.aboveFloor hS ha hfl hf ?_) hon.unknown
    rw [hheight]
    exact hg 0 (by simp)
  · have := hg (n + 1) (by simp only [List.length_cons]; omega)
    dsimp only
    rwa [hheight, show cur.height + 1 + 1 + n = cur.height + 1 + (n + 1) by omega]

theorem Floor.step {b : HeaderBatch} (hS : S.rules.Standard)
    (ha : Target.toTarget ⟨S.anchor.bits⟩ ≤ Target.toTarget ⟨S.rules.retarget.maxTargetBits⟩)
    (hfl : Floor S r.headers) (hb : b.Anchored S r) (hs : BatchStep C S r b.headers u r') :
    Floor S r'.headers := by
  cases hs with
  | known => exact hfl
  | @staged blockTime first start found rest i out hfirst hstart hfound hne hout =>
    obtain ⟨-, known, hlen, hk⟩ := knownPrefix_point (startCursor_point hstart) hfound
    refine stageHeaders_floor hS ha (⟨by simp, by simp⟩ : Fresh r []) hfl ?_ hout
    intro n hn
    have hthere := hb first start hfirst hstart (known + n) (by omega)
    rwa [show start.height + 1 + (known + n) = found.height + 1 + n by omega] at hthere

end

/-- Every stored header is above the floor as long as no batch gives a header to a retarget height whose window
begins below the anchor. -/
theorem relayRun_floor {C : Crypto} {P : ChainParams} {chain : ForeignChain} {calls : List (Call HeaderBatch)}
    (hret : P.ltcRetargetParams = litecoinRetarget)
    (ha : Target.toTarget ⟨(P.spvAnchor chain).bits⟩ ≤
      Target.toTarget ⟨(P.relaySetup chain).rules.retarget.maxTargetBits⟩)
    (hcalls : Meets (fun b r => P.applyHeaderBatch C chain b.headers b.blockTime r) undoRelayUpdate
      (HeaderBatch.Anchored (P.relaySetup chain)) ⟨Relay.empty, []⟩ calls) :
    Floor (P.relaySetup chain) (relayRun C P chain calls).state.headers := by
  have hS : (P.relaySetup chain).rules.Standard := by
    cases chain with
    | btc => exact btcRules_standard
    | ltc => simpa only [ChainParams.relaySetup, hret] using ltcRules_standard
  have hanchor : (P.relaySetup chain).anchor = P.spvAnchor chain := by cases chain <;> rfl
  rw [← hanchor] at ha
  have hinv : (relayRun C P chain calls).state.SameKeys ∧
      Floor (P.relaySetup chain) (relayRun C P chain calls).state.headers := by
    refine run_inv (fun r => r.SameKeys ∧ Floor (P.relaySetup chain) r.headers) _ ?_ rfl hcalls ?_
    · exact ⟨Relay.empty_sameKeys, fun hash e h => by simp [Relay.empty] at h⟩
    · rintro b r u r' hb ⟨hk, hfl⟩ happ
      have hstep := applyHeaderBatch_step happ
      exact ⟨⟨hstep.sameKeys hk, hfl.step hS ha hb (applyHeaderBatch_batchStep happ)⟩, hstep.undo hk⟩
  exact hinv.2

section

open ChainState

theorem bitcoin_header_above_floor :
    (relayRun shaCrypto relayParams .btc [.command ⟨[bitcoinHeader], 1231469665⟩]).state.tipHeight = 1 ∧
      Floor (relayParams.relaySetup .btc)
        (relayRun shaCrypto relayParams .btc [.command ⟨[bitcoinHeader], 1231469665⟩]).state.headers := by
  refine ⟨by decide +kernel, relayRun_floor rfl (le_refl _) ⟨?_, trivial⟩⟩
  rintro _ ⟨⟩ first start hfirst hstart i hi
  obtain rfl := Option.some.inj hfirst
  have hheight : (startCursor Relay.empty (relayParams.relaySetup .btc).anchor bitcoinHeader).map
      Cursor.height = .ok 0 := by decide
  rw [hstart] at hheight
  have hzero : start.height = 0 := Except.ok.inj hheight
  obtain rfl : i = 0 := by simpa using hi
  rw [hzero]
  rintro ⟨hw, -⟩
  exact absurd hw (by decide)

def lateParams : ChainParams := nodeParams relayNode (some { bitcoinAnchor with height := 2015 }) none lockedGenesis

/-- A header that is two thousand million times as easy as the anchor. -/
def easyHeader : ForeignHeader where
  version := 1
  prevHash := bitcoinAnchor.hash
  merkleRoot := ByteVec.zero 32
  time := 1231469665
  bits := 0x207fffff
  nonce := 1

theorem easy_header_below_floor :
    ¬ Floor (lateParams.relaySetup .btc)
      (relayRun shaCrypto lateParams .btc [.command ⟨[easyHeader], 1231469665⟩]).state.headers := by
  intro h
  have hstored : ((relayRun shaCrypto lateParams .btc [.command ⟨[easyHeader], 1231469665⟩]).state.headers.lookup
      (beVec 32 0xd98bb2cc6d695722c3bf3d3ea0c48b482db9aab9dd47b3444bef2c1817366161)).map
        HeaderEntry.header = some easyHeader := by decide +kernel
  obtain ⟨e, he, hbits⟩ := Option.map_eq_some_iff.mp hstored
  have hle := (h _ _ he).le_max
  rw [hbits] at hle
  exact absurd hle (by decide)

end

end IriumConsensus
