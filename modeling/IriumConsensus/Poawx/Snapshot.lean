import IriumConsensus.DominanceCounters
import IriumConsensus.Lib.Codec
import Mathlib.Algebra.BigOperators.Group.Finset.Sigma
import Mathlib.Algebra.Order.BigOperators.Ring.Finset
import Mathlib.Data.Prod.Lex
import Mathlib.Tactic.Ring

namespace IriumConsensus

open ByteCodec FinMaps

section

def sortBy {α β : Type} [LinearOrder β] (key : α → β) (hkey : Function.Injective key) (s : Finset α) : List α :=
  Quot.liftOn s.val (fun xs => xs.insertionSort fun a b => key a ≤ key b) fun xs ys h => by
    have : IsTrans α fun a b => key a ≤ key b := ⟨fun _ _ _ => le_trans⟩
    have : Std.Total fun a b => key a ≤ key b := ⟨fun _ _ => le_total _ _⟩
    have hperm := ((List.perm_insertionSort (fun a b => key a ≤ key b) xs).trans h).trans
      (List.perm_insertionSort (fun a b => key a ≤ key b) ys).symm
    exact List.Perm.eq_of_pairwise (fun a b _ _ hab hba => hkey (le_antisymm hab hba))
      (List.pairwise_insertionSort _ _) (List.pairwise_insertionSort _ _) hperm

theorem coe_sortBy {α β : Type} [LinearOrder β] (key : α → β) (hkey : Function.Injective key) (s : Finset α) :
    (sortBy key hkey s : Multiset α) = s.val := by
  obtain ⟨xs, hxs⟩ := s
  induction xs using Quot.ind with
  | mk xs => exact Quot.sound (List.perm_insertionSort (fun a b => key a ≤ key b) xs)

def bucketKey (key : Pkh × Nat) : Nat ×ₗ Nat := toLex (key.1.toNat, key.2)

theorem bucketKey_injective : Function.Injective bucketKey := by
  rintro ⟨pkh, wid⟩ ⟨pkh', wid'⟩ h
  obtain ⟨hp, hw⟩ := Prod.mk.inj (toLex.injective h)
  exact Prod.ext (ByteVec.toNat_injective hp) hw

def bucketBytes (entry : (Pkh × Nat) × DominanceBucket) : Bytes :=
  entry.1.1.bytes ++ leList 8 entry.1.2 ++ leList 8 entry.2.primary ++ leList 8 entry.2.compute ++
    leList 8 entry.2.verify ++ leList 8 entry.2.support ++ leList 8 entry.2.total ++
    leList 8 entry.2.validRoleCount ++ leList 8 entry.2.lastRewardHeight

namespace PersistentDominance

def sortedBuckets (d : PersistentDominance) : List ((Pkh × Nat) × DominanceBucket) :=
  entriesAt d.buckets (sortBy bucketKey bucketKey_injective d.buckets.keys)

def toBytes (d : PersistentDominance) : Bytes :=
  leList 8 d.windowLen ++ leList 8 d.lookback ++ leList 8 d.buckets.keys.card ++ d.sortedBuckets.flatMap bucketBytes

def readWord : Reader Nat := readLen 8 "dominance: truncated"

def readBucket : Reader ((Pkh × Nat) × DominanceBucket) := do
  let pkh ← readVec 20 "dominance: truncated pkh"
  let wid ← readWord
  let primary ← readWord
  let compute ← readWord
  let verify ← readWord
  let support ← readWord
  let total ← readWord
  let validRoleCount ← readWord
  let lastRewardHeight ← readWord
  return ((pkh, wid), { primary, compute, verify, support, total, validRoleCount, lastRewardHeight })

def readSnapshot : Reader PersistentDominance := do
  let windowLen ← readWord
  let lookback ← readWord
  let count ← readWord
  let entries ← readMany readBucket count
  return { new windowLen lookback with buckets := insertAll ∅ entries }

def fromBytes (raw : Bytes) : Except String PersistentDominance := do
  let (d, rest) ← readSnapshot raw
  if rest ≠ [] then
    throw ("dominance: trailing bytes (" ++ toString (raw.length - rest.length) ++ " parsed, " ++ toString raw.length ++
      " given)")
  return d

end PersistentDominance

end

section

open PersistentDominance

/-- The states of a node or a miner; a map in memory has at most `2 ^ 64 - 1` entries. -/
inductive PersistentDominance.Reachable : PersistentDominance → Prop where
  | new {windowLen lookback : Nat} (hw : windowLen ≤ u64Max) (hl : lookback ≤ u64Max) : Reachable (new windowLen lookback)
  | applied {d : PersistentDominance} {pkh : Pkh} {kind : RoleRewardKind} {amount height : Nat} (hd : Reachable d)
      (hh : height ≤ u64Max) (hfits : (d.applyEvent pkh kind amount height).buckets.keys.card ≤ u64Max) :
      Reachable (d.applyEvent pkh kind amount height)
  | reverted {d : PersistentDominance} {pkh : Pkh} {kind : RoleRewardKind} {amount height : Nat} (hd : Reachable d) :
      Reachable (d.revertEvent pkh kind amount height)
  | fetched {raw : Bytes} {d : PersistentDominance} (h : fromBytes raw = .ok d) : Reachable d

structure DominanceBucket.Fits (b : DominanceBucket) : Prop where
  primary : b.primary ≤ u64Max
  compute : b.compute ≤ u64Max
  verify : b.verify ≤ u64Max
  support : b.support ≤ u64Max
  total : b.total ≤ u64Max
  validRoleCount : b.validRoleCount ≤ u64Max
  lastRewardHeight : b.lastRewardHeight ≤ u64Max

structure PersistentDominance.Fits (d : PersistentDominance) : Prop where
  windowLen : 1 ≤ d.windowLen ∧ d.windowLen ≤ u64Max
  lookback : 1 ≤ d.lookback ∧ d.lookback ≤ u64Max
  count : d.buckets.keys.card ≤ u64Max
  bucket : ∀ key b, d.buckets.lookup key = some b → key.2 ≤ u64Max ∧ b.Fits

theorem satAdd64_le (a b : Nat) : satAdd64 a b ≤ u64Max := Nat.min_le_right _ _

variable {b : DominanceBucket} {height : Nat}

theorem DominanceBucket.Fits.add (hb : b.Fits) (kind : RoleRewardKind) (amount : Nat) (hh : height ≤ u64Max) :
    (b.add kind amount height).Fits := by
  obtain ⟨hprimary, hcompute, hverify, hsupport, -, -, hlast⟩ := hb
  have hadd := satAdd64_le
  cases kind with
  | primary => exact ⟨hadd _ _, hcompute, hverify, hsupport, hadd _ _, hadd _ _, max_le hlast hh⟩
  | compute => exact ⟨hprimary, hadd _ _, hverify, hsupport, hadd _ _, hadd _ _, max_le hlast hh⟩
  | verify => exact ⟨hprimary, hcompute, hadd _ _, hsupport, hadd _ _, hadd _ _, max_le hlast hh⟩
  | support => exact ⟨hprimary, hcompute, hverify, hadd _ _, hadd _ _, hadd _ _, max_le hlast hh⟩

theorem DominanceBucket.Fits.sub (hb : b.Fits) (kind : RoleRewardKind) (amount : Nat) :
    (b.sub kind amount).Fits := by
  obtain ⟨hprimary, hcompute, hverify, hsupport, htotal, hcount, hlast⟩ := hb
  have hsub : ∀ {n k : Nat}, n ≤ u64Max → n - k ≤ u64Max := fun h => (Nat.sub_le _ _).trans h
  cases kind with
  | primary => exact ⟨hsub hprimary, hcompute, hverify, hsupport, hsub htotal, hsub hcount, hlast⟩
  | compute => exact ⟨hprimary, hsub hcompute, hverify, hsupport, hsub htotal, hsub hcount, hlast⟩
  | verify => exact ⟨hprimary, hcompute, hsub hverify, hsupport, hsub htotal, hsub hcount, hlast⟩
  | support => exact ⟨hprimary, hcompute, hverify, hsub hsupport, hsub htotal, hsub hcount, hlast⟩

theorem DominanceBucket.fits_default : ({} : DominanceBucket).Fits :=
  ⟨Nat.zero_le _, Nat.zero_le _, Nat.zero_le _, Nat.zero_le _, Nat.zero_le _, Nat.zero_le _, Nat.zero_le _⟩

variable {d : PersistentDominance}

theorem prune_lens (d : PersistentDominance) (height : Nat) :
    (d.prune height).windowLen = d.windowLen ∧ (d.prune height).lookback = d.lookback := by
  unfold prune
  dsimp only
  split
  next => exact ⟨rfl, rfl⟩
  next => exact ⟨rfl, rfl⟩

theorem prune_submap (d : PersistentDominance) (height : Nat) : Submap (d.prune height).buckets d.buckets := by
  unfold prune
  dsimp only
  split
  next => exact Submap.refl _
  next => exact submap_retain _ _

theorem PersistentDominance.Fits.applyEvent (hd : d.Fits) {pkh : Pkh} {kind : RoleRewardKind} {amount : Nat}
    (hh : height ≤ u64Max) (hfits : (d.applyEvent pkh kind amount height).buckets.keys.card ≤ u64Max) :
    (d.applyEvent pkh kind amount height).Fits := by
  obtain ⟨hw, hl⟩ := prune_lens { d with
    buckets := d.buckets.insert (pkh, d.windowId height)
      (((d.buckets.lookup (pkh, d.windowId height)).getD {}).add kind amount height) } height
  refine ⟨hw ▸ hd.windowLen, hl ▸ hd.lookback, hfits, fun key b hb => ?_⟩
  have hold := prune_submap _ _ key b hb
  rw [lookup_insert_eq] at hold
  split at hold
  next hkey =>
    obtain rfl := Option.some.inj hold
    refine ⟨hkey ▸ (Nat.div_le_self _ _).trans hh, DominanceBucket.Fits.add ?_ kind amount hh⟩
    cases hlook : d.buckets.lookup (pkh, d.windowId height) with
    | none => exact DominanceBucket.fits_default
    | some old => exact (hd.bucket _ old hlook).2
  next => exact hd.bucket key b hold

theorem PersistentDominance.Fits.revertEvent (hd : d.Fits) (pkh : Pkh) (kind : RoleRewardKind) (amount height : Nat) :
    (d.revertEvent pkh kind amount height).Fits := by
  obtain ⟨hw, hl⟩ := revertEvent_lens d pkh kind amount height
  have hbucket : ∀ key b, (d.revertEvent pkh kind amount height).buckets.lookup key = some b →
      ∃ old, d.buckets.lookup key = some old ∧ (b = old ∨ b = old.sub kind amount) := by
    intro key b hb
    rw [lookup_revertEvent] at hb
    split at hb
    next =>
      obtain ⟨old, hold, hb⟩ := Option.bind_eq_some_iff.mp hb
      split at hb
      next => exact absurd hb (by simp)
      next => exact ⟨old, hold, .inr (Option.some.inj hb).symm⟩
    next => exact ⟨b, hb, .inl rfl⟩
  refine ⟨hw ▸ hd.windowLen, hl ▸ hd.lookback, (Finset.card_le_card fun key hkey => ?_).trans hd.count, fun key b hb => ?_⟩
  · obtain ⟨b, hb⟩ := Finmap.mem_iff.mp (Finmap.mem_keys.mp hkey)
    obtain ⟨old, hold, -⟩ := hbucket key b hb
    exact Finmap.mem_keys.mpr (Finmap.mem_of_lookup_eq_some hold)
  · obtain ⟨old, hold, hb⟩ := hbucket key b hb
    obtain ⟨hwid, hfits⟩ := hd.bucket key old hold
    rcases hb with rfl | rfl
    · exact ⟨hwid, hfits⟩
    · exact ⟨hwid, hfits.sub kind amount⟩

theorem readWord_reads {n : Nat} (h : n ≤ u64Max) : Reads readWord (leList 8 n) n := by
  refine readLen_reads ?_ _
  unfold u64Max at h
  omega

theorem readWord_yields : Yields readWord fun n => n ≤ u64Max :=
  (readLen_yields 8 _).mono fun n h => by
    unfold u64Max
    omega

theorem readBucket_yields : Yields readBucket fun entry => entry.1.2 ≤ u64Max ∧ entry.2.Fits := by
  have hword := readWord_yields
  refine yields_bind fun pkh => hword.bind fun wid hwid => ?_
  refine hword.bind fun _ hprimary => hword.bind fun _ hcompute => hword.bind fun _ hverify => ?_
  refine hword.bind fun _ hsupport => hword.bind fun _ htotal => hword.bind fun _ hcount => ?_
  exact hword.bind fun _ hlast => yields_pure
    ⟨hwid, hprimary, hcompute, hverify, hsupport, htotal, hcount, hlast⟩

theorem readSnapshot_yields : Yields readSnapshot PersistentDominance.Fits := by
  refine readWord_yields.bind fun windowLen hw => readWord_yields.bind fun lookback hl => ?_
  refine readWord_yields.bind fun count hcount => (readBucket_yields.readMany count).bind fun entries hentries => ?_
  have hone : 1 ≤ u64Max := by decide
  refine yields_pure ⟨⟨le_max_right _ _, max_le hw hone⟩, ⟨le_max_right _ _, max_le hl hone⟩, ?_, fun key b hb => ?_⟩
  · have hkeys : (insertAll (∅ : FinMap (Pkh × Nat) DominanceBucket) entries).keys ⊆ (entries.map Prod.fst).toFinset := by
      intro key hkey
      exact List.mem_toFinset.mpr ((mem_insertAll.mp (Finmap.mem_keys.mp hkey)).resolve_left Finmap.notMem_empty)
    refine (Finset.card_le_card hkeys).trans ((List.toFinset_card_le _).trans ?_)
    rwa [List.length_map, hentries.1]
  · have hkey := (mem_insertAll.mp (Finmap.mem_of_lookup_eq_some hb)).resolve_left Finmap.notMem_empty
    obtain ⟨b', hmem, hb'⟩ := lookup_insertAll_of_mem (m := (∅ : FinMap (Pkh × Nat) DominanceBucket)) hkey
    obtain rfl := Option.some.inj (hb.symm.trans hb')
    exact hentries.2 (key, b) hmem

theorem fromBytes_eq_ok {raw : Bytes} : fromBytes raw = .ok d ↔ readSnapshot raw = .ok (d, []) := by
  unfold fromBytes
  cases hread : readSnapshot raw with
  | error e => simp [bind, Except.bind]
  | ok r =>
    obtain ⟨x, rest⟩ := r
    by_cases hrest : rest = []
    · subst hrest
      simp [bind, Except.bind, pure, Except.pure]
    · simp [bind, Except.bind, hrest, throw, throwThe, MonadExceptOf.throw]

theorem PersistentDominance.Reachable.fits (hd : d.Reachable) : d.Fits := by
  induction hd with
  | new hw hl =>
    have hone : 1 ≤ u64Max := by decide
    exact ⟨⟨le_max_right _ _, max_le hw hone⟩, ⟨le_max_right _ _, max_le hl hone⟩, Nat.zero_le _,
      fun key b hb => absurd hb (by simp [PersistentDominance.new])⟩
  | applied _ hh hfits ih => exact ih.applyEvent hh hfits
  | reverted _ ih => exact ih.revertEvent _ _ _ _
  | fetched h => exact readSnapshot_yields _ _ _ (fromBytes_eq_ok.mp h)

theorem readBucket_reads {entry : (Pkh × Nat) × DominanceBucket} (hwid : entry.1.2 ≤ u64Max) (hb : entry.2.Fits) :
    Reads readBucket (bucketBytes entry) entry := by
  have hword : ∀ {n}, n ≤ u64Max → Reads readWord (leList 8 n) n := readWord_reads
  simp only [bucketBytes, List.append_assoc]
  refine (readVec_reads _ entry.1.1).bind ((hword hwid).bind ?_)
  refine (hword hb.primary).bind ((hword hb.compute).bind ((hword hb.verify).bind ?_))
  refine (hword hb.support).bind ((hword hb.total).bind ((hword hb.validRoleCount).bind ?_))
  exact (hword hb.lastRewardHeight).bind_nil (reads_pure _)

theorem mem_sortBy_keys {key : Pkh × Nat} :
    key ∈ sortBy bucketKey bucketKey_injective d.buckets.keys ↔ key ∈ d.buckets := by
  rw [← Multiset.mem_coe, coe_sortBy]
  exact Finmap.mem_keys

theorem length_sortedBuckets (d : PersistentDominance) : d.sortedBuckets.length = d.buckets.keys.card := by
  rw [sortedBuckets, length_entriesAt fun key hkey => mem_sortBy_keys.mp hkey, ← Multiset.coe_card, coe_sortBy]
  rfl

theorem readSnapshot_reads {windowLen lookback : Nat} {entries : List ((Pkh × Nat) × DominanceBucket)}
    (hw : windowLen ≤ u64Max) (hl : lookback ≤ u64Max) (hn : entries.length ≤ u64Max)
    (hentries : Reads (readMany readBucket entries.length) (entries.flatMap bucketBytes) entries) :
    Reads readSnapshot (leList 8 windowLen ++ leList 8 lookback ++ leList 8 entries.length ++ entries.flatMap bucketBytes)
      { new windowLen lookback with buckets := insertAll ∅ entries } := by
  simp only [List.append_assoc]
  refine (readWord_reads hw).bind ((readWord_reads hl).bind ((readWord_reads hn).bind ?_))
  exact hentries.bind_nil (reads_pure _)

theorem PersistentDominance.Fits.fromBytes_toBytes (hd : d.Fits) : fromBytes d.toBytes = .ok d := by
  have hentries : Reads (readMany readBucket d.sortedBuckets.length) (d.sortedBuckets.flatMap bucketBytes)
      d.sortedBuckets := by
    refine readMany_reads fun entry hentry => ?_
    obtain ⟨hwid, hb⟩ := hd.bucket entry.1 entry.2 (mem_entriesAt.mp hentry).2
    exact readBucket_reads hwid hb
  have hbuckets : insertAll ∅ d.sortedBuckets = d.buckets := insertAll_entriesAt fun key hkey => mem_sortBy_keys.mpr hkey
  have hstate : { new d.windowLen d.lookback with buckets := insertAll ∅ d.sortedBuckets } = d := by
    rw [hbuckets, new, max_eq_left hd.windowLen.1, max_eq_left hd.lookback.1]
  have hread := readSnapshot_reads hd.windowLen.2 hd.lookback.2 (length_sortedBuckets d ▸ hd.count) hentries
  rw [hstate, length_sortedBuckets] at hread
  have h := hread []
  rw [List.append_nil] at h
  exact fromBytes_eq_ok.mpr h

end

section

open PersistentDominance

theorem foldl_satAdd64 (f : Nat → Nat) (wids : List Nat) (sum : Nat) (hsum : sum ≤ u64Max) :
    wids.foldl (fun sum wid => satAdd64 sum (f wid)) sum = min (sum + (wids.map f).sum) u64Max := by
  induction wids generalizing sum with
  | nil => simp [hsum]
  | cons wid wids ih =>
    rw [List.foldl_cons, ih _ (satAdd64_le _ _), List.map_cons, List.sum_cons, satAdd64]
    omega

theorem sum_floor_le {ι : Type} (s : Finset ι) (a : ι → Nat) (scale whole : Nat) (h : ∑ i ∈ s, a i ≤ whole) :
    ∑ i ∈ s, a i * scale / whole ≤ scale := by
  rcases Nat.eq_zero_or_pos whole with rfl | hpos
  · simp
  · refine Nat.le_of_mul_le_mul_right ?_ hpos
    calc (∑ i ∈ s, a i * scale / whole) * whole = ∑ i ∈ s, a i * scale / whole * whole := Finset.sum_mul _ _ _
      _ ≤ ∑ i ∈ s, a i * scale := Finset.sum_le_sum fun i _ => Nat.div_mul_le_self _ _
      _ = (∑ i ∈ s, a i) * scale := (Finset.sum_mul _ _ _).symm
      _ ≤ whole * scale := Nat.mul_le_mul_right _ h
      _ = scale * whole := Nat.mul_comm _ _

theorem share_mono {mine mine' others scale : Nat} (h : mine ≤ mine') :
    mine * scale / (mine + others) ≤ mine' * scale / (mine' + others) := by
  obtain ⟨more, rfl⟩ := Nat.exists_eq_add_of_le h
  rcases Nat.eq_zero_or_pos (mine + others) with hzero | hpos
  · simp [hzero]
  · rw [Nat.le_div_iff_mul_le (by omega)]
    have hshare := Nat.div_mul_le_self (mine * scale) (mine + others)
    have hscale : mine * scale / (mine + others) ≤ scale := by
      refine Nat.div_le_of_le_mul ?_
      exact Nat.mul_le_mul_right scale (Nat.le_add_right mine others)
    calc mine * scale / (mine + others) * (mine + more + others)
        = mine * scale / (mine + others) * (mine + others) + mine * scale / (mine + others) * more := by ring
      _ ≤ mine * scale + scale * more := Nat.add_le_add hshare (Nat.mul_le_mul_right more hscale)
      _ = (mine + more) * scale := by ring

theorem fairnessWeight_antitone {score share share' : Nat} (hscore : score ≤ u64Max) (h : share ≤ share') :
    fairnessWeight score share' ≤ fairnessWeight score share := by
  have hfits : ∀ p, score * 1000 / (1000 + p) < 2 ^ 64 := by
    intro p
    have hle : score * 1000 / (1000 + p) ≤ score := by
      refine Nat.div_le_of_le_mul ?_
      rw [Nat.mul_comm]
      exact Nat.mul_le_mul_right score (Nat.le_add_right 1000 p)
    unfold u64Max at hscore
    omega
  rw [fairnessWeight, fairnessWeight, Nat.mod_eq_of_lt (hfits share), Nat.mod_eq_of_lt (hfits share')]
  exact Nat.div_le_div_left (by omega) (by omega)

namespace PersistentDominance

variable {d d' : PersistentDominance} {height : Nat} {S : Finset Pkh}

def identities (d : PersistentDominance) : Finset Pkh := d.buckets.keys.image Prod.fst

/-- What the recent windows hold fits, so that no sum over them saturates. -/
def Unsaturated (d : PersistentDominance) (height : Nat) : Prop :=
  total DominanceBucket.total (retain (fun key _ => decide ((d.recentRange height).1 ≤ key.2 ∧
    key.2 ≤ (d.recentRange height).2)) d.buckets) ≤ u64Max

instance : Decidable (d.Unsaturated height) := inferInstanceAs (Decidable (_ ≤ _))

def recentWindows (d : PersistentDominance) (height : Nat) : List Nat :=
  List.range' (d.recentRange height).1 ((d.recentRange height).2 + 1 - (d.recentRange height).1)

theorem mem_recentWindows {wid : Nat} :
    wid ∈ d.recentWindows height ↔ (d.recentRange height).1 ≤ wid ∧ wid ≤ (d.recentRange height).2 := by
  rw [recentWindows, List.mem_range'_1]
  omega

def recentSum (d : PersistentDominance) (pkh : Pkh) (height : Nat) : Nat :=
  ∑ wid ∈ (d.recentWindows height).toFinset, ((d.buckets.lookup (pkh, wid)).map DominanceBucket.total).getD 0

theorem recentTotal_eq (pkh : Pkh) : d.recentTotal pkh height = min (d.recentSum pkh height) u64Max := by
  have hnodup : (d.recentWindows height).Nodup := List.nodup_range'
  have hfold := foldl_satAdd64 (fun wid => ((d.buckets.lookup (pkh, wid)).map DominanceBucket.total).getD 0)
    (d.recentWindows height) 0 (Nat.zero_le _)
  rw [recentSum, List.sum_toFinset _ hnodup]
  rwa [Nat.zero_add] at hfold

theorem recent_total_eq (height : Nat) (hS : d.identities ⊆ S) :
    total DominanceBucket.total (retain (fun key _ => decide ((d.recentRange height).1 ≤ key.2 ∧
      key.2 ≤ (d.recentRange height).2)) d.buckets) = ∑ pkh ∈ S, d.recentSum pkh height := by
  rw [total_retain_eq_sum (S := S ×ˢ (d.recentWindows height).toFinset), Finset.sum_product]
  · rfl
  · rintro ⟨pkh, wid⟩ hmem
    exact decide_eq_true (mem_recentWindows.mp (List.mem_toFinset.mp (Finset.mem_product.mp hmem).2))
  · rintro ⟨pkh, wid⟩ hkey hrecent
    have hpkh : pkh ∈ S := hS (Finset.mem_image_of_mem Prod.fst (Finmap.mem_keys.mpr hkey))
    exact Finset.mem_product.mpr ⟨hpkh, List.mem_toFinset.mpr (mem_recentWindows.mpr (of_decide_eq_true hrecent))⟩

theorem Unsaturated.sum_recentTotal (h : d.Unsaturated height) (hS : d.identities ⊆ S) :
    ∑ pkh ∈ S, d.recentTotal pkh height = d.networkRecentTotal height := by
  have htotal := recent_total_eq height hS
  have hbound : ∑ pkh ∈ S, d.recentSum pkh height ≤ u64Max := htotal ▸ h
  have hexact : ∀ pkh ∈ S, d.recentTotal pkh height = d.recentSum pkh height := by
    intro pkh hpkh
    rw [recentTotal_eq]
    exact Nat.min_eq_left ((Finset.single_le_sum (fun _ _ => Nat.zero_le _) hpkh).trans hbound)
  rw [Finset.sum_congr rfl hexact, ← htotal]
  exact (Nat.min_eq_left h).symm

theorem Unsaturated.sum_permille_le (h : d.Unsaturated height) :
    ∑ pkh ∈ d.identities, d.recentRewardSharePermille pkh height ≤ 1000 := by
  have hsum := h.sum_recentTotal (Finset.Subset.refl _)
  refine le_trans (Finset.sum_le_sum fun pkh _ => ?_) (sum_floor_le d.identities (d.recentTotal · height) 1000 _ hsum.le)
  unfold recentRewardSharePermille
  split
  next => exact Nat.zero_le _
  next => exact Nat.min_le_left _ _

theorem Unsaturated.permille_mono (h : d.Unsaturated height) (h' : d'.Unsaturated height) {pkh : Pkh}
    (hothers : ∀ q ≠ pkh, d'.recentTotal q height = d.recentTotal q height)
    (hgrows : d.recentTotal pkh height ≤ d'.recentTotal pkh height) :
    d.recentRewardSharePermille pkh height ≤ d'.recentRewardSharePermille pkh height := by
  let S := insert pkh (d.identities ∪ d'.identities)
  have hpkh : pkh ∈ S := Finset.mem_insert_self _ _
  have hsum := h.sum_recentTotal (S := S) fun q hq => Finset.mem_insert_of_mem (Finset.mem_union_left _ hq)
  have hsum' := h'.sum_recentTotal (S := S) fun q hq => Finset.mem_insert_of_mem (Finset.mem_union_right _ hq)
  have hrest : ∑ q ∈ S.erase pkh, d'.recentTotal q height = ∑ q ∈ S.erase pkh, d.recentTotal q height :=
    Finset.sum_congr rfl fun q hq => hothers q (Finset.ne_of_mem_erase hq)
  rw [← Finset.add_sum_erase S _ hpkh] at hsum hsum'
  rw [hrest] at hsum'
  unfold recentRewardSharePermille
  rw [← hsum, ← hsum']
  split
  next => exact Nat.zero_le _
  next hpos =>
    rw [if_neg (by omega)]
    exact min_le_min_right 1000 (share_mono hgrows)

end PersistentDominance

/-- A snapshot is read back as it was, so that a miner has the weights of the node; the recent totals add up to that of
the network and the shares to no more than the whole, and who has earned more weighs no more. -/
theorem dominance_snapshot_and_shares {d : PersistentDominance} (hd : d.Reachable) :
    fromBytes d.toBytes = .ok d ∧
    (∀ fetched, fromBytes d.toBytes = .ok fetched →
      ∀ score pkh height, fetched.weight score pkh height = d.weight score pkh height) ∧
    ∀ height, d.Unsaturated height →
      ∑ pkh ∈ d.identities, d.recentTotal pkh height = d.networkRecentTotal height ∧
      ∑ pkh ∈ d.identities, d.recentRewardSharePermille pkh height ≤ 1000 ∧
      ∀ d' : PersistentDominance, d'.Unsaturated height → ∀ pkh,
        (∀ q ≠ pkh, d'.recentTotal q height = d.recentTotal q height) →
        d.recentTotal pkh height ≤ d'.recentTotal pkh height →
        ∀ score ≤ u64Max, d'.weight score pkh height ≤ d.weight score pkh height := by
  have hround := hd.fits.fromBytes_toBytes
  refine ⟨hround, fun fetched hfetched score pkh height => ?_, fun height h => ?_⟩
  · rw [Except.ok.inj (hround.symm.trans hfetched)]
  · refine ⟨h.sum_recentTotal (Finset.Subset.refl _), h.sum_permille_le, ?_⟩
    intro d' h' pkh hothers hgrows score hscore
    exact fairnessWeight_antitone hscore (h.permille_mono h' hothers hgrows)

def sharedWindow : PersistentDominance :=
  ((PersistentDominance.new 2016 2).applyEvent (beVec 20 1) .primary 30 100).applyEvent (beVec 20 2) .verify 10 101

theorem dominance_snapshot_and_shares_two :
    fromBytes sharedWindow.toBytes = .ok sharedWindow ∧
      ∑ pkh ∈ sharedWindow.identities, sharedWindow.recentTotal pkh 102 = 40 := by
  have hreach : sharedWindow.Reachable := by
    refine .applied (.applied (.new (by decide) (by decide)) (by decide) ?_) (by decide) ?_
    · decide
    · decide
  have h := dominance_snapshot_and_shares hreach
  have hsum := (h.2.2 102 (by decide)).1
  have hnetwork : sharedWindow.networkRecentTotal 102 = 40 := by decide
  exact ⟨h.1, hsum.trans hnetwork⟩

end

end IriumConsensus
