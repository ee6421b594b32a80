import IriumConsensus.Lib.Text
import IriumConsensus.Mempool
import IriumConsensus.Nodes

namespace IriumConsensus

open ByteCodec Checks FinMaps Stateful

def MempoolPriority.asDiskStr : MempoolPriority → String
  | .zeroFeeAllowed => "zero_fee_allowed"
  | .standard => "standard"

def MempoolPriority.fromDiskStr (s : String) : Option MempoolPriority :=
  if s = "zero_fee_allowed" then some .zeroFeeAllowed else if s = "standard" then some .standard else none

structure DiskEntry where
  hex : String
  fee : Option Nat
  size : Option Nat
  feePerByte : Option Rat
  priority : Option String

/-- The entry that `load_from_disk` makes of a record; nothing when it skips the record. -/
def DiskEntry.decode (C : Crypto) (d : DiskEntry) : Option (Hash32 × MempoolEntry) := do
  let raw ← (hexDecode d.hex).toOption
  let tx ← (decodeFullTx raw).toOption
  let size := d.size.getD raw.length
  let fee := d.fee.getD 0
  let priority := (d.priority.bind MempoolPriority.fromDiskStr).getD .standard
  return (tx.txid C, ⟨tx, raw, fee, d.feePerByte.getD (feeRate fee size), priority⟩)

/-- What is kept of an entry for good; its rate is an approximation. -/
def MempoolEntry.kept (e : MempoolEntry) : Transaction × Bytes × Nat × MempoolPriority := (e.tx, e.raw, e.fee, e.priority)

def MempoolEntry.toDisk (e : MempoolEntry) : DiskEntry :=
  ⟨encodeHex e.raw, some e.fee, some e.raw.length, some e.feePerByte, some e.priority.asDiskStr⟩

/-- A rate is an `f64`; what is read from its JSON text may be another number. -/
def DiskEntry.reread (parse : Rat → Rat) (d : DiskEntry) : DiskEntry := { d with feePerByte := d.feePerByte.map parse }

/-- How a write of `pending.json` ends. A write that fails leaves the old file or one that cannot be parsed. -/
inductive DiskWrite where
  | done
  | failed (error : String) (kept : Bool)
  deriving DecidableEq

def DiskWrite.result : DiskWrite → Except String Unit
  | .done => .ok ()
  | .failed error _ => .error error

structure PoolLimits where
  maxEntries : Nat
  minFeePerByte : Rat
  minTotalFee : Nat

namespace Mempool

variable (C : Crypto) (A : Ambient) (m : Mempool)

def loadFromDisk (file : Option (List DiskEntry)) : Mempool :=
  { m with entries := insertAll m.entries ((file.getD []).filterMap (DiskEntry.decode C)) }

def new (L : PoolLimits) (file : Option (List DiskEntry)) : Mempool :=
  loadFromDisk C ⟨∅, L.maxEntries, L.minFeePerByte, L.minTotalFee, ∅⟩ file

def iterate : Nat → Finset Hash32 → List Hash32
  | 0, _ => []
  | n + 1, keys =>
    if h : keys.Nonempty then (A.firstKey keys h).1 :: iterate n (keys.erase (A.firstKey keys h).1) else []

def values : List MempoolEntry := (iterate A m.entries.keys.card m.entries.keys).filterMap m.entries.lookup

def orderedTransactions : List Transaction :=
  ((m.values A).insertionSort fun a b => b.feePerByte ≤ a.feePerByte).map MempoolEntry.tx

def persist (file : Option (List DiskEntry)) : DiskWrite → Option (List DiskEntry)
  | .done => some ((m.values A).map MempoolEntry.toDisk)
  | .failed _ kept => if kept then file else none

end Mempool

structure PoolStore where
  pool : Mempool
  file : Option (List DiskEntry)

inductive PoolCall where
  | restart (parse : Rat → Rat)
  | add (A : Ambient) (tx : Transaction) (raw : Bytes) (fee : Nat) (priority : MempoolPriority) (peerIp : Option IpAddr)
      (write : DiskWrite)
  | evictInvalid (A : Ambient) (chain : ChainState) (write : Hash32 → DiskWrite)

namespace PoolStore

variable (C : Crypto) (E : NodeEnv) (L : PoolLimits)

def start (file : Option (List DiskEntry)) : PoolStore := ⟨Mempool.new C L file, file⟩

/-- The outcome of the write is ignored. -/
def remove (A : Ambient) (s : PoolStore) (txid : Hash32) (write : DiskWrite) : PoolStore :=
  if txid ∈ s.pool.entries then
    let pool := { s.pool with entries := s.pool.entries.erase txid }
    ⟨pool, pool.persist A s.file write⟩
  else s

def evictInvalid (A : Ambient) (chain : ChainState) (write : Hash32 → DiskWrite) (s : PoolStore) : PoolStore :=
  (s.pool.orderedTransactions A).foldl
    (fun s tx => if (chain.validateTransaction C E tx).isOk then s else s.remove A (tx.txid C) (write (tx.txid C))) s

def step (s : PoolStore) : PoolCall → PoolStore
  | .restart parse => ⟨Mempool.new C L (s.file.map (List.map (DiskEntry.reread parse))), s.file⟩
  | .add A tx raw fee priority peerIp write =>
    let before := (admitTransaction C A tx raw fee priority peerIp s.pool)
    let pool := (addTransactionPersisting C A tx raw fee priority peerIp write.result s.pool).2
    ⟨pool, if before.1.isOk then before.2.persist A s.file write else s.file⟩
  | .evictInvalid A chain write => s.evictInvalid C E A chain write

def Along (P : PoolStore → PoolCall → Prop) : PoolStore → List PoolCall → Prop
  | _, [] => True
  | s, c :: cs => P s c ∧ Along P (step C E L s c) cs

def Bounded (s : PoolStore) : Prop := s.pool.entries.keys.card ≤ s.pool.maxEntries

/-- A refused addition changes no entry, and one without a fee displaces no entry of standard priority. -/
def AddsSafely (s : PoolStore) : PoolCall → Prop
  | .add A tx raw fee priority peerIp write =>
    let r := addTransactionPersisting C A tx raw fee priority peerIp write.result s.pool
    (r.1.isOk = false → r.2.entries = s.pool.entries) ∧
      (priority = .zeroFeeAllowed → ∀ k e, s.pool.entries.lookup k = some e → e.priority = .standard →
        r.2.entries.lookup k = some e)
  | _ => True

/-- The write of an addition succeeds, unless the addition is refused before it. -/
def Written (s : PoolStore) : PoolCall → Prop
  | .add A tx raw fee priority peerIp write =>
    write = .done ∨ (admitTransaction C A tx raw fee priority peerIp s.pool).1.isOk = false
  | _ => True

def BoundedAndAtomic (file : Option (List DiskEntry)) (cs : List PoolCall) : Prop :=
  Bounded (start C L file) ∧ Along C E L (fun s c => Bounded (step C E L s c) ∧ AddsSafely C s c) (start C L file) cs

def diskTxids (file : Option (List DiskEntry)) : Finset Hash32 :=
  (((file.getD []).filterMap (DiskEntry.decode C)).map Prod.fst).toFinset

end PoolStore

section

variable {C : Crypto} {E : NodeEnv} {A : Ambient} {L : PoolLimits} {m : Mempool} {file : Option (List DiskEntry)}

namespace Mempool

theorem length_iterate_le (n : Nat) (keys : Finset Hash32) : (iterate A n keys).length ≤ n := by
  induction n generalizing keys with
  | zero => exact le_rfl
  | succ n ih =>
    unfold iterate
    split
    next => exact Nat.succ_le_succ (ih _)
    next => exact Nat.zero_le _

theorem length_values_le : (m.values A).length ≤ m.entries.keys.card :=
  (List.length_filterMap_le _ _).trans (length_iterate_le _ _)

theorem kept_reread (parse : Rat → Rat) (file : Option (List DiskEntry)) :
    (((file.map (List.map (DiskEntry.reread parse))).getD []).filterMap (DiskEntry.decode C)).map
        (fun p => (p.1, p.2.kept)) =
      ((file.getD []).filterMap (DiskEntry.decode C)).map fun p => (p.1, p.2.kept) := by
  have hdecode : ∀ d : DiskEntry, ((d.reread parse).decode C).map (fun p => (p.1, p.2.kept)) =
      (d.decode C).map fun p => (p.1, p.2.kept) := by
    intro d
    simp only [DiskEntry.decode, DiskEntry.reread]
    cases (hexDecode d.hex).toOption with
    | none => rfl
    | some raw => cases h : (decodeFullTx raw).toOption <;> simp [h, MempoolEntry.kept]
  cases file with
  | none => rfl
  | some ds =>
    rw [Option.map_some, Option.getD_some, Option.getD_some, List.map_filterMap, List.map_filterMap, List.filterMap_map]
    exact List.filterMap_congr fun d _ => hdecode d

theorem keys_loadFromDisk : (loadFromDisk C m file).entries.keys = m.entries.keys ∪ PoolStore.diskTxids C file := by
  ext k
  simp only [loadFromDisk, PoolStore.diskTxids, Finmap.mem_keys, mem_insertAll, Finset.mem_union, List.mem_toFinset]

theorem keys_new : (new C L file).entries.keys = PoolStore.diskTxids C file := by
  rw [new, keys_loadFromDisk, Finmap.keys_empty, Finset.empty_union]

variable {txid : Hash32} {entry : MempoolEntry} {evicted : Option Hash32} {priority : MempoolPriority} {rate : Rat}

theorem keys_insertEntry :
    (m.insertEntry txid entry evicted).entries.keys = insert txid (m.entries.keys \ evicted.toFinset) := by
  ext k
  simp only [insertEntry, Finmap.mem_keys, Finmap.mem_insert, mem_eraseAll, Option.mem_toList, Finset.mem_insert,
    Finset.mem_sdiff, Option.mem_toFinset, Option.mem_def]

theorem pickEvictionTarget_spec {t : Hash32} (h : m.pickEvictionTarget A priority rate = some t) :
    ∃ lowest, m.entries.lookup t = some lowest ∧ (lowest.priority.rank < priority.rank ∨
      priority.rank = lowest.priority.rank ∧ lowest.feePerByte < rate) := by
  unfold pickEvictionTarget at h
  split at h
  next =>
    obtain ⟨lowest, hlowest, hpick⟩ := Option.bind_eq_some_iff.mp h
    split at hpick
    next hless =>
      obtain rfl := Option.some.inj hpick
      exact ⟨lowest, hlowest, hless⟩
    next => exact absurd hpick (by simp)
  next => exact absurd h (by simp)

theorem evictFor_spec (h : m.evictFor A priority rate = .ok evicted) :
    (evicted = none ∧ m.entries.keys.card < m.maxEntries) ∨
      ∃ t, evicted = some t ∧ m.pickEvictionTarget A priority rate = some t := by
  unfold evictFor at h
  split at h
  next =>
    cases hpick : m.pickEvictionTarget A priority rate with
    | none => exact absurd h (by simp [hpick, orFail, Except.map])
    | some t => exact .inr ⟨t, by simpa [hpick, orFail, Except.map, eq_comm] using h, rfl⟩
  next hroom => exact .inl ⟨(Except.ok.inj h).symm, not_le.mp hroom⟩

theorem evictFor_congr {m' : Mempool} (he : m'.entries = m.entries) (hmax : m'.maxEntries = m.maxEntries) :
    m'.evictFor A priority rate = m.evictFor A priority rate := by
  obtain ⟨entries, maxEntries, _⟩ := m
  obtain ⟨_, _, _⟩ := m'
  obtain rfl : _ = entries := he
  obtain rfl : _ = maxEntries := hmax
  rfl

theorem card_insertEntry_le (hb : m.entries.keys.card ≤ m.maxEntries) (h : m.evictFor A priority rate = .ok evicted) :
    (m.insertEntry txid entry evicted).entries.keys.card ≤ m.maxEntries := by
  rw [keys_insertEntry]
  refine (Finset.card_insert_le _ _).trans ?_
  obtain ⟨rfl, hroom⟩ | ⟨t, rfl, ht⟩ := evictFor_spec h
  · rwa [Option.toFinset_none, Finset.sdiff_empty]
  · obtain ⟨lowest, hlowest, -⟩ := pickEvictionTarget_spec ht
    have hmem : t ∈ m.entries.keys := Finmap.mem_keys.mpr (Finmap.mem_of_lookup_eq_some hlowest)
    rw [Option.toFinset_some, Finset.sdiff_singleton_eq_erase, Finset.card_erase_add_one hmem]
    exact hb

theorem lookup_insertEntry_standard {k : Hash32} {e : MempoolEntry} (hnew : txid ∉ m.entries)
    (h : m.evictFor A .zeroFeeAllowed rate = .ok evicted) (hk : m.entries.lookup k = some e)
    (he : e.priority = .standard) :
    (m.insertEntry txid entry evicted).entries.lookup k = some e := by
  have hne : k ≠ txid := by
    rintro rfl
    exact hnew (Finmap.mem_of_lookup_eq_some hk)
  -- only an entry of the lowest class can be displaced
  have hkept : k ∉ evicted.toList := by
    intro hmem
    obtain ⟨rfl, -⟩ | ⟨t, rfl, ht⟩ := evictFor_spec h
    · exact absurd hmem (by simp)
    · obtain rfl : k = t := by simpa using hmem
      obtain ⟨lowest, hlowest, hless⟩ := pickEvictionTarget_spec ht
      obtain rfl := Option.some.inj (hk.symm.trans hlowest)
      simp [he, MempoolPriority.rank] at hless
  rw [insertEntry, lookup_insert_eq, if_neg hne, lookup_eraseAll, if_neg hkept, hk]

end Mempool

open Mempool

/-- An addition is refused with no change to the entries, or it makes room for the new entry and inserts it. -/
inductive Admission (C : Crypto) (A : Ambient) (tx : Transaction) (priority : MempoolPriority) (rate : Rat)
    (m : Mempool) : Except String AddOutcome × Mempool → Prop
  | refused {m' : Mempool} (e : String) (hmax : m'.maxEntries = m.maxEntries) (he : m'.entries = m.entries) :
      Admission C A tx priority rate m (.error e, m')
  | admitted {m' : Mempool} {evicted : Option Hash32} (entry : MempoolEntry) (hmax : m'.maxEntries = m.maxEntries)
      (hnew : tx.txid C ∉ m.entries) (hevict : m.evictFor A priority rate = .ok evicted)
      (he : m'.entries = (m.insertEntry (tx.txid C) entry evicted).entries) :
      Admission C A tx priority rate m (.ok ⟨tx.txid C, evicted⟩, m')

section

variable (C A m) (tx : Transaction) (raw : Bytes) (fee : Nat) (priority : MempoolPriority) (peerIp : Option IpAddr)

theorem admitTransaction_cases : Admission C A tx priority (feeRate fee raw.length) m
    (admitTransaction C A tx raw fee priority peerIp m) := by
  unfold admitTransaction
  rw [read_bind]
  refine lift_bind_cases (fun e _ => .refused e rfl rfl) fun _ hnew => ?_
  refine lift_bind_cases (fun e _ => .refused e rfl rfl) fun _ _ => ?_
  refine lift_bind_cases (fun e _ => .refused e rfl rfl) fun _ _ => ?_
  rw [update_bind, read_bind]
  obtain ⟨m', hm'⟩ : ∃ m', m' =
      if (limitedIp priority peerIp).isSome then m.gcHeaderRelayRateTable A.now else m := ⟨_, rfl⟩
  have hsame : m'.maxEntries = m.maxEntries ∧ m'.entries = m.entries := by
    rw [hm']
    split <;> exact ⟨rfl, rfl⟩
  rw [← hm']
  refine lift_bind_cases (fun e _ => .refused e hsame.1 hsame.2) fun _ _ => ?_
  refine lift_bind_cases (fun e _ => .refused e hsame.1 hsame.2) fun _ _ => ?_
  refine lift_bind_cases (fun e _ => .refused e hsame.1 hsame.2) fun _ _ => ?_
  refine lift_bind_cases (fun e _ => .refused e hsame.1 hsame.2) fun evicted hevict => ?_
  rw [update_bind]
  refine .admitted ⟨tx, raw, fee, feeRate fee raw.length, priority⟩ hsame.1 (failIf_eq_ok.mp hnew) ?_ ?_
  · rw [← hevict, evictFor_congr hsame.2 hsame.1]
  · simp only [insertEntry, hsame.2]

theorem addTransactionPersisting_eq (w : Except String Unit) :
    (addTransactionPersisting C A tx raw fee priority peerIp w m).1.isOk =
        ((admitTransaction C A tx raw fee priority peerIp m).1.isOk && w.isOk) ∧
      (addTransactionPersisting C A tx raw fee priority peerIp w m).2.entries =
        (admitTransaction C A tx raw fee priority peerIp m).2.entries ∧
      (addTransactionPersisting C A tx raw fee priority peerIp w m).2.maxEntries =
        (admitTransaction C A tx raw fee priority peerIp m).2.maxEntries := by
  rw [addTransactionPersisting, bind_apply]
  rcases admitTransaction C A tx raw fee priority peerIp m with ⟨e | outcome, m'⟩
  · exact ⟨rfl, rfl, rfl⟩
  · cases w <;> exact ⟨rfl, rfl, rfl⟩

end

theorem Admission.bounded {tx : Transaction} {priority : MempoolPriority} {rate : Rat} {r}
    (h : Admission C A tx priority rate m r) (hb : m.entries.keys.card ≤ m.maxEntries) :
    r.2.maxEntries = m.maxEntries ∧ r.2.entries.keys.card ≤ m.maxEntries := by
  cases h with
  | refused e hmax he => exact ⟨hmax, he ▸ hb⟩
  | admitted entry hmax hnew hevict he => exact ⟨hmax, he ▸ card_insertEntry_le hb hevict⟩

namespace PoolStore

variable {s : PoolStore} {c : PoolCall} {cs : List PoolCall} {write : DiskWrite}

theorem addsSafely_iff : AddsSafely C s c ↔ Written C s c := by
  cases c with
  | restart parse => exact Iff.rfl
  | evictInvalid A chain write => exact Iff.rfl
  | add A tx raw fee priority peerIp write =>
    obtain ⟨hok, hentries, -⟩ := addTransactionPersisting_eq C A s.pool tx raw fee priority peerIp write.result
    have hcases := admitTransaction_cases C A s.pool tx raw fee priority peerIp
    simp only [AddsSafely, Written, hok, hentries]
    revert hcases
    generalize admitTransaction C A tx raw fee priority peerIp s.pool = r
    intro hcases
    cases hcases with
    | refused e hmax he =>
      refine iff_of_true ⟨fun _ => he, fun _ k e hk _ => ?_⟩ (.inr rfl)
      rwa [he]
    | admitted entry hmax hnew hevict he =>
      cases write with
      | done =>
        refine iff_of_true ⟨fun h => absurd h (by simp [Except.isOk, Except.toBool, DiskWrite.result]), ?_⟩ (.inl rfl)
        rintro rfl k e hk hstandard
        rw [he]
        exact lookup_insertEntry_standard hnew hevict hk hstandard
      | failed error kept =>
        refine iff_of_false (fun h => ?_) (by simp [Except.isOk, Except.toBool])
        -- the new entry is there although the addition has failed
        have hmem : tx.txid C ∈ s.pool.entries := by
          rw [← h.1 (by simp [Except.isOk, Except.toBool, DiskWrite.result]), he]
          exact Finmap.mem_insert.mpr (.inl rfl)
        exact hnew hmem

/-- What keeps the pool bounded through restarts: the file never holds more than fits either. -/
structure Fits (C : Crypto) (L : PoolLimits) (s : PoolStore) : Prop where
  limit : s.pool.maxEntries = L.maxEntries
  pool : s.pool.entries.keys.card ≤ L.maxEntries
  file : (diskTxids C s.file).card ≤ L.maxEntries

theorem card_diskTxids_le {ds : List DiskEntry} : (diskTxids C (some ds)).card ≤ ds.length := by
  refine (List.toFinset_card_le _).trans ?_
  rw [List.length_map]
  exact List.length_filterMap_le _ _

theorem card_persist_le (hm : m.entries.keys.card ≤ L.maxEntries) (hfile : (diskTxids C file).card ≤ L.maxEntries) :
    (diskTxids C (m.persist A file write)).card ≤ L.maxEntries := by
  cases write with
  | done =>
    refine card_diskTxids_le.trans ?_
    rw [List.length_map]
    exact length_values_le.trans hm
  | failed error kept =>
    cases kept with
    | true => exact hfile
    | false => exact Nat.zero_le _

theorem diskTxids_reread (parse : Rat → Rat) (file : Option (List DiskEntry)) :
    diskTxids C (file.map (List.map (DiskEntry.reread parse))) = diskTxids C file := by
  have hkeys := congrArg (List.map Prod.fst) (kept_reread (C := C) parse file)
  simp only [List.map_map] at hkeys
  exact congrArg List.toFinset hkeys

theorem fits_start (hfile : (diskTxids C file).card ≤ L.maxEntries) : Fits C L (start C L file) :=
  ⟨rfl, keys_new ▸ hfile, hfile⟩

theorem Fits.remove {txid : Hash32} (h : Fits C L s) : Fits C L (s.remove A txid write) := by
  unfold PoolStore.remove
  split
  next =>
    have herase : (s.pool.entries.erase txid).keys.card ≤ L.maxEntries := by
      rw [Finmap.keys_erase]
      exact (Finset.card_erase_le).trans h.pool
    exact ⟨h.limit, herase, card_persist_le herase h.file⟩
  next => exact h

theorem Fits.evictInvalid {chain : ChainState} {write : Hash32 → DiskWrite} (h : Fits C L s) :
    Fits C L (s.evictInvalid C E A chain write) := by
  unfold PoolStore.evictInvalid
  generalize s.pool.orderedTransactions A = txs
  induction txs generalizing s with
  | nil => exact h
  | cons tx txs ih =>
    refine ih ?_
    beta_reduce
    split
    next => exact h
    next => exact h.remove

theorem Fits.step (h : Fits C L s) : Fits C L (step C E L s c) := by
  cases c with
  | restart parse => exact ⟨rfl, (keys_new.trans (diskTxids_reread parse s.file)) ▸ h.file, h.file⟩
  | evictInvalid A chain write => exact h.evictInvalid
  | add A tx raw fee priority peerIp write =>
    obtain ⟨-, hentries, hmax⟩ := addTransactionPersisting_eq C A s.pool tx raw fee priority peerIp write.result
    obtain ⟨hlimit, hpool⟩ :=
      (admitTransaction_cases C A s.pool tx raw fee priority peerIp).bounded (h.limit.symm ▸ h.pool)
    rw [h.limit] at hlimit hpool
    refine ⟨hmax.trans hlimit, ?_, ?_⟩
    · exact hentries.symm ▸ hpool
    · simp only [PoolStore.step]
      split
      next => exact card_persist_le hpool h.file
      next => exact h.file

theorem Along.mono {P Q : PoolStore → PoolCall → Prop} (h : ∀ s c, Fits C L s → P s c → Q s c) (hs : Fits C L s)
    (halong : Along C E L P s cs) : Along C E L Q s cs := by
  induction cs generalizing s with
  | nil => trivial
  | cons c cs ih => exact ⟨h s c hs halong.1, ih hs.step halong.2⟩

theorem Fits.bounded (h : Fits C L s) : Bounded s := by
  rw [Bounded, h.limit]
  exact h.pool

/-- A pool stays within its limit and its additions are atomic just when it is started on a file that fits and no
addition fails at its write. -/
theorem mempool_bounded_iff (C : Crypto) (E : NodeEnv) (L : PoolLimits) (file : Option (List DiskEntry))
    (cs : List PoolCall) : BoundedAndAtomic C E L file cs ↔
      (diskTxids C file).card ≤ L.maxEntries ∧ Along C E L (Written C) (start C L file) cs := by
  have hstart : Bounded (start C L file) ↔ (diskTxids C file).card ≤ L.maxEntries := by
    rw [Bounded, start, keys_new]
    exact Iff.rfl
  rw [BoundedAndAtomic, hstart]
  refine and_congr_right fun hfile => ⟨?_, ?_⟩
  · exact Along.mono (fun s c _ h => addsSafely_iff.mp h.2) (fits_start hfile)
  · exact Along.mono (fun s c hs h => ⟨hs.step.bounded, addsSafely_iff.mpr h⟩) (fits_start hfile)

end PoolStore

end

namespace PoolStore

def plainTx (locktime : UInt32) : Transaction := ⟨1, [⟨ByteVec.zero 32, 0, [0], 0⟩], [⟨1, [0]⟩], locktime⟩

def plainDisk (locktime : UInt32) : DiskEntry := ⟨encodeHex (plainTx locktime).serialize, none, none, none, none⟩

/-- A file with two transactions overfills a pool for one, and an addition that fails at its write leaves its entry. -/
theorem mempool_overfull_or_changed :
    ¬BoundedAndAtomic shaCrypto devnetNode ⟨1, 0, 0⟩ (some [plainDisk 0, plainDisk 1]) [] ∧
      ¬BoundedAndAtomic shaCrypto devnetNode ⟨1, 0, 0⟩ none
        [.add quietAmbient (plainTx 0) (plainTx 0).serialize 0 .standard none (.failed "No space left" true)] := by
  refine ⟨fun h => ?_, fun h => ?_⟩
  · have hle : (start shaCrypto ⟨1, 0, 0⟩ (some [plainDisk 0, plainDisk 1])).pool.entries.keys.card ≤ 1 := h.1
    exact absurd hle (by decide +kernel)
  · exact absurd (h.2.1.2.1 (by decide +kernel)) (by decide +kernel)

section

variable {C : Crypto} {E : NodeEnv} {A : Ambient} {L : PoolLimits} {m : Mempool} {s : PoolStore} {c : PoolCall}

/-- Each entry is under its txid, with bytes that its transaction is read from. -/
def Sound (C : Crypto) (m : Mempool) : Prop :=
  ∀ k e, m.entries.lookup k = some e → k = e.tx.txid C ∧ decodeFullTx e.raw = .ok e.tx

def kept (m : Mempool) (txid : Hash32) : Option (Transaction × Bytes × Nat × MempoolPriority) :=
  (m.entries.lookup txid).map MempoolEntry.kept

theorem kept_congr {m m' : Mempool} (h : m.entries = m'.entries) : kept m = kept m' := by
  unfold kept
  rw [h]

/-- The file has the entries of the pool, up to their rates. -/
structure Saved (C : Crypto) (L : PoolLimits) (s : PoolStore) : Prop where
  sound : Sound C s.pool
  file : kept (Mempool.new C L s.file) = kept s.pool

/-- Transactions come with their own bytes, and all writes succeed. -/
def Served : PoolCall → Prop
  | .restart _ => True
  | .add _ tx raw _ _ _ write => decodeFullTx raw = .ok tx ∧ write = .done
  | .evictInvalid _ _ write => ∀ txid, write txid = .done

theorem mem_iterate {n : Nat} {keys : Finset Hash32} {k : Hash32} (hn : keys.card ≤ n) (hk : k ∈ keys) :
    k ∈ Mempool.iterate A n keys := by
  induction n generalizing keys with
  | zero => exact absurd hn (Nat.not_le.mpr (Finset.card_pos.mpr ⟨k, hk⟩))
  | succ n ih =>
    rw [Mempool.iterate, dif_pos ⟨k, hk⟩, List.mem_cons]
    refine or_iff_not_imp_left.mpr fun hne => ih ?_ (Finset.mem_erase.mpr ⟨hne, hk⟩)
    rw [Finset.card_erase_of_mem (A.firstKey keys ⟨k, hk⟩).2]
    omega

theorem decode_toDisk {e : MempoolEntry} (h : decodeFullTx e.raw = .ok e.tx) :
    e.toDisk.decode C = some (e.tx.txid C, e) := by
  obtain ⟨tx, raw, fee, rate, priority⟩ := e
  cases priority <;> simp [MempoolEntry.toDisk, DiskEntry.decode, hexDecode_encodeHex, h, Except.toOption,
    MempoolPriority.asDiskStr, MempoolPriority.fromDiskStr]

theorem saved_of_write (hm : Sound C m) (file : Option (List DiskEntry)) :
    Saved C L ⟨m, m.persist A file .done⟩ := by
  refine ⟨hm, ?_⟩
  have hread : ((m.values A).map MempoolEntry.toDisk).filterMap (DiskEntry.decode C) =
      entriesAt m.entries (Mempool.iterate A m.entries.keys.card m.entries.keys) := by
    rw [Mempool.values, List.filterMap_map, List.filterMap_filterMap, entriesAt]
    refine List.filterMap_congr fun k _ => ?_
    cases hk : m.entries.lookup k with
    | none => rfl
    | some e =>
      obtain ⟨rfl, htx⟩ := hm k e hk
      exact decode_toDisk htx
  refine kept_congr ?_
  change insertAll ∅ (((m.values A).map MempoolEntry.toDisk).filterMap (DiskEntry.decode C)) = m.entries
  rw [hread]
  exact insertAll_entriesAt fun k hk => mem_iterate le_rfl (Finmap.mem_keys.mpr hk)

theorem kept_new_reread (parse : Rat → Rat) (file : Option (List DiskEntry)) :
    kept (Mempool.new C L (file.map (List.map (DiskEntry.reread parse)))) = kept (Mempool.new C L file) := by
  have hempty : ∀ k, (∅ : FinMap Hash32 (Transaction × Bytes × Nat × MempoolPriority)).lookup k =
      ((∅ : FinMap Hash32 MempoolEntry).lookup k).map MempoolEntry.kept := fun _ => rfl
  funext k
  refine (lookup_insertAll_map MempoolEntry.kept hempty _ k).symm.trans ?_
  rw [Mempool.kept_reread parse file]
  exact lookup_insertAll_map MempoolEntry.kept hempty _ k

theorem sound_new (file : Option (List DiskEntry)) : Sound C (Mempool.new C L file) := by
  intro k e hk
  have hmem : k ∈ ((file.getD []).filterMap (DiskEntry.decode C)).map Prod.fst :=
    (mem_insertAll.mp (Finmap.mem_of_lookup_eq_some hk)).resolve_left Finmap.notMem_empty
  obtain ⟨e', hmem, hlook⟩ := lookup_insertAll_of_mem (m := ∅) hmem
  obtain rfl := Option.some.inj (hk.symm.trans hlook)
  obtain ⟨d, -, hd⟩ := List.mem_filterMap.mp hmem
  obtain ⟨raw, -, hd⟩ := Option.bind_eq_some_iff.mp hd
  obtain ⟨tx, htx, hd⟩ := Option.bind_eq_some_iff.mp hd
  cases hd
  exact ⟨rfl, toOption_eq_some.mp htx⟩

theorem admitTransaction_sound {tx : Transaction} {raw : Bytes} (fee : Nat) (priority : MempoolPriority)
    (peerIp : Option IpAddr) (htx : decodeFullTx raw = .ok tx) :
    Steps (Keeps (Sound C)) (admitTransaction C A tx raw fee priority peerIp) := by
  refine .bind .read fun m => .bind (.lift _) fun _ => .bind (.lift _) fun _ => .bind (.lift _) fun _ =>
    .bind (.update fun m hm => ?_) fun _ => .bind .read fun _ => .bind (.lift _) fun _ => .bind (.lift _) fun _ =>
      .bind (.lift _) fun _ => .bind (.lift _) fun evicted => .bind (.update fun m hm k e hk => ?_) fun _ => .pure _
  · split <;> exact hm
  · rw [Mempool.insertEntry, lookup_insert_eq] at hk
    split_ifs at hk with heq
    · cases hk
      exact ⟨heq, htx⟩
    · rw [lookup_eraseAll] at hk
      exact hm k e (Option.ite_none_left_eq_some.mp hk).2

theorem Saved.step (hs : Saved C L s) (hc : Served c) : Saved C L (step C E L s c) := by
  cases c with
  | restart parse => exact ⟨sound_new _, (kept_new_reread parse s.file).symm⟩
  | evictInvalid A chain write =>
    rw [PoolStore.step, evictInvalid]
    generalize s.pool.orderedTransactions A = txs
    induction txs generalizing s with
    | nil => exact hs
    | cons tx txs ih =>
      refine ih ?_
      simp only [remove, hc _]
      split_ifs
      · exact hs
      · exact saved_of_write (fun k e hk => hs.sound k e (submap_erase _ _ k e hk)) _
      · exact hs
  | add A tx raw fee priority peerIp write =>
    obtain ⟨htx, rfl⟩ := hc
    obtain ⟨-, hentries, -⟩ := addTransactionPersisting_eq C A s.pool tx raw fee priority peerIp (.ok ())
    have hsound := admitTransaction_sound (C := C) (A := A) fee priority peerIp htx s.pool hs.sound
    refine ⟨fun k e hk => hsound k e (hentries ▸ hk), ?_⟩
    refine Eq.trans ?_ (kept_congr hentries.symm)
    have hcases := admitTransaction_cases C A s.pool tx raw fee priority peerIp
    simp only [PoolStore.step]
    revert hcases hsound
    generalize admitTransaction C A tx raw fee priority peerIp s.pool = r
    intro hsound hcases
    cases hcases with
    | refused e _ he => exact hs.file.trans (kept_congr he.symm)
    | admitted => exact (saved_of_write hsound s.file).file

variable (C E L) in
def run (file : Option (List DiskEntry)) (cs : List PoolCall) : PoolStore := cs.foldl (step C E L) (start C L file)

/-- At any point of a run whose writes all succeed, a node that starts again has the entries that it had, whatever it
makes of their rates. -/
theorem restart_keeps_entries {file : Option (List DiskEntry)} {cs : List PoolCall} (hcs : ∀ c ∈ cs, Served c)
    (parse : Rat → Rat) :
    kept (step C E L (run C E L file cs) (.restart parse)).pool = kept (run C E L file cs).pool := by
  have hsaved : Saved C L (run C E L file cs) :=
    List.foldlRecOn cs _ ⟨sound_new file, rfl⟩ fun s hs c hc => hs.step (hcs c hc)
  exact (kept_new_reread parse _).trans hsaved.file

def plainAddition (fee : Nat) (locktime : UInt32) : PoolCall :=
  .add quietAmbient (plainTx locktime) (plainTx locktime).serialize fee .standard none .done

theorem restart_keeps_additions :
    let cs := [plainAddition 1000 0, .restart (fun rate => rate / 2), plainAddition 7 1]
    let s := run shaCrypto devnetNode ⟨2, 0, 0⟩ none cs
    s.pool.entries.keys.card = 2 ∧
      kept (step shaCrypto devnetNode ⟨2, 0, 0⟩ s (.restart fun rate => rate / 2)).pool = kept s.pool := by
  have hserved : ∀ fee, Served (plainAddition fee 0) ∧ Served (plainAddition fee 1) := fun _ =>
    ⟨⟨by decide +kernel, rfl⟩, ⟨by decide +kernel, rfl⟩⟩
  refine ⟨by decide +kernel, restart_keeps_entries ?_ _⟩
  simp only [List.forall_mem_cons, List.not_mem_nil, false_implies, implies_true, and_true]
  exact ⟨(hserved 1000).1, trivial, (hserved 7).2⟩

end

end PoolStore

end IriumConsensus
