import IriumConsensus.BlockTree
import IriumConsensus.Persist.BlockFile

namespace IriumConsensus

open Checks ChainState

variable {t s s₀ : ChainState}

structure PersistedBlock where
  height : Nat
  name : String
  block : Block

def quarantineWords : List String := ["merkle", "proof-of-work", "bits mismatch", "coinbase", "timestamp"]

/-- The errors of `connect_block` for which a file is moved away rather than tried again. -/
def shouldQuarantine (e : String) : Bool := quarantineWords.any fun w => decide (w.toList <:+: e.toLower.toList)

structure ReplayPass where
  progressed : Bool
  deferred : List PersistedBlock
  quarantined : List String
  state : ChainState

section

variable (C : Crypto) (E : NodeEnv) (A : Ambient)

def replayPass : List PersistedBlock → ChainState → ReplayPass
  | [], s => ⟨false, [], [], s⟩
  | p :: rest, s =>
    if p.height = 0 ∨ p.height ≤ s.tipHeight then replayPass rest s
    else
      match connectBlock C E A p.block s with
      | (.ok _, s') => { replayPass rest s' with progressed := true }
      | (.error e, s') =>
        let r := replayPass rest s'
        if shouldQuarantine e then { r with quarantined := p.name :: r.quarantined }
        else { r with deferred := p :: r.deferred }

/-- The names of the files that are moved away, and the state in the end. -/
def replayRounds : Nat → List PersistedBlock → ChainState → List String × ChainState
  | 0, _, s => ([], s)
  | rounds + 1, pending, s =>
    let r := replayPass C E A pending s
    if r.progressed = false ∨ r.deferred.isEmpty then (r.quarantined, r.state)
    else
      let later := replayRounds rounds r.deferred r.state
      (r.quarantined ++ later.1, later.2)

def parseFiles (genesisHashLc : String) : List BlockFile → List PersistedBlock × List String
  | [] => ([], [])
  | file :: rest =>
    let parsed := parseFiles genesisHashLc rest
    match blockHeightFromFilename file.name with
    | none => parsed
    | some _ =>
      match parsePersistedBlockFile C E genesisHashLc file with
      | .ok (height, b) => (⟨height, file.name, b⟩ :: parsed.1, parsed.2)
      | .error _ => (parsed.1, file.name :: parsed.2)

def loadPersistedBlocks (genesisHashLc : String) (files : List BlockFile) (s : ChainState) : List String × ChainState :=
  let parsed := parseFiles C E genesisHashLc files
  let replayed := replayRounds C E A 5 (sortByKey PersistedBlock.height parsed.1) s
  (parsed.2 ++ replayed.1, replayed.2)

end

def blockEntry (p : Nat × Block) : PersistedBlock := ⟨p.1, blockFileName p.1, p.2⟩

/-- The blocks above genesis with their heights, oldest first; the branch is given with its newest block first. -/
def placedBlocks : List Block → List (Nat × Block)
  | [] => []
  | b :: below => placedBlocks below ++ [(below.length + 1, b)]

/-- The blocks of a main chain above genesis, newest first, were each accepted, before `A`, on top of what the ones
below left; between two of them the node may have done whatever changes caches and signals only. -/
inductive Accepted (C : Crypto) (E : NodeEnv) (A : Ambient) (s₀ : ChainState) : List Block → ChainState → Prop
  | start : Accepted C E A s₀ [] s₀
  | connect {below : List Block} {b : Block} {t t' : ChainState} {A' : Ambient} (h : Accepted C E A s₀ below t)
      (hA : A'.Before A) (hc : connectBlock C E A' b t = (.ok (), t')) : Accepted C E A s₀ (b :: below) t'
  | idle {x : List Block} {t t' : ChainState} (h : Accepted C E A s₀ x t) (hs : SameCore t' t) :
      Accepted C E A s₀ x t'

variable {C : Crypto} {E : NodeEnv} {A : Ambient}

theorem connectBlock_body {b : Block} (hpos : 0 < s.height)
    (h : connectBlock C E A b s = (.ok (), t)) : b.transactions ≠ [] ∧ b.merkleRoot C = b.header.merkleRoot := by
  obtain ⟨hv, undo, L, hL, -, -⟩ := connectBlock_eq_ok.mp h
  constructor
  · cases applyTransactions_ok hL with
    | mk htxs => simp [htxs]
  · simp only [validateBlock, validateBlockHeader, bind_eq_ok, exists_unit, failIf_eq_ok] at hv
    by_contra hne
    exact hv.1.2.2.1 ⟨hpos, Ne.symm hne⟩

section

variable {x : List Block} {p : Nat × Block}

theorem placedBlocks_height (hp : p ∈ placedBlocks x) :
    0 < p.1 ∧ p.1 ≤ x.length := by
  induction x with
  | nil => exact absurd hp List.not_mem_nil
  | cons b below ih =>
    rw [List.length_cons]
    rcases List.mem_append.mp hp with hp | hp
    · have hbelow := ih hp
      omega
    · obtain rfl := List.mem_singleton.mp hp
      exact ⟨Nat.succ_pos _, le_rfl⟩

theorem placedBlocks_pairwise (x : List Block) : (placedBlocks x).Pairwise fun p q => p.1 < q.1 := by
  induction x with
  | nil => exact List.Pairwise.nil
  | cons b below ih =>
    refine List.pairwise_append.mpr ⟨ih, List.pairwise_singleton _ _, fun p hp q hq => ?_⟩
    obtain rfl := List.mem_singleton.mp hq
    exact Nat.lt_succ_of_le (placedBlocks_height hp).2

theorem placedBlocks_eq {q : Nat × Block} (hp : p ∈ placedBlocks x) (hq : q ∈ placedBlocks x) (h : p.1 = q.1) :
    p = q := by
  induction x with
  | nil => exact absurd hp List.not_mem_nil
  | cons b below ih =>
    rcases List.mem_append.mp hp with hp | hp <;> rcases List.mem_append.mp hq with hq | hq
    · exact ih hp hq
    · have hlow := (placedBlocks_height hp).2
      obtain rfl := List.mem_singleton.mp hq
      omega
    · have hlow := (placedBlocks_height hq).2
      obtain rfl := List.mem_singleton.mp hp
      omega
    · rw [List.mem_singleton.mp hp, List.mem_singleton.mp hq]

theorem sortByKey_entries {placed : List (Nat × Block)} (h : placed.Perm (placedBlocks x)) :
    sortByKey PersistedBlock.height (placed.map blockEntry) = (placedBlocks x).map blockEntry := by
  have hperm := (List.perm_insertionSort (fun p q : PersistedBlock => p.height ≤ q.height) _).trans (h.map blockEntry)
  have hsorted : ((placedBlocks x).map blockEntry).Pairwise fun p q => p.height ≤ q.height :=
    List.pairwise_map.mpr ((placedBlocks_pairwise x).imp fun hlt => hlt.le)
  refine List.Perm.eq_of_pairwise (fun p q hp hq hpq hqp => ?_) (List.pairwise_insertionSort _ _) hsorted hperm
  obtain ⟨p', hp', rfl⟩ := List.mem_map.mp (hperm.mem_iff.mp hp)
  obtain ⟨q', hq', rfl⟩ := List.mem_map.mp hq
  rw [placedBlocks_eq hp' hq' (le_antisymm hpq hqp)]

end

section

variable {placed : List (Nat × Block)} {x : List Block}

theorem parseFiles_blockFiles (genesisHashLc : String)
    (h : ∀ p ∈ placed, 0 < p.1 ∧ Storable C E p.1 p.2 ∧ p.2.transactions ≠ [] ∧
      p.2.merkleRoot C = p.2.header.merkleRoot) :
    parseFiles C E genesisHashLc (placed.map fun p => blockFile C E p.1 p.2) = (placed.map blockEntry, []) := by
  induction placed with
  | nil => rfl
  | cons p placed ih =>
    obtain ⟨hpos, hstore, htxs, hroot⟩ := h p List.mem_cons_self
    have hrest := ih fun q hq => h q (List.mem_cons_of_mem p hq)
    have hname := blockHeightFromFilename_blockFileName (hstore.inRange.trans_lt (by decide : maxStoredHeight < 2 ^ 64))
    obtain ⟨file, hwrite, hparse⟩ := (parse_write_iff C E p.1 p.2 genesisHashLc hpos htxs hroot).mpr hstore
    simp only [writeBlockJson, bind_eq_ok, exists_unit, pure_eq_ok] at hwrite
    obtain ⟨-, rfl⟩ := hwrite
    rw [List.map_cons, List.map_cons, parseFiles, hrest]
    simp only [blockFile, hname, hparse, blockEntry]

theorem Accepted.height (hs₀ : s₀.height = 1) (h : Accepted C E A s₀ x t) :
    t.height = x.length + 1 := by
  induction h with
  | start => exact hs₀
  | connect h hA hc ih => rw [connectBlock_height hc, ih, List.length_cons]
  | idle h hs ih => rw [hs.height, ih]

theorem Accepted.chain (h : Accepted C E A s₀ x t) : t.chain = s₀.chain ++ x.reverse := by
  induction h with
  | start => rw [List.reverse_nil, List.append_nil]
  | connect h hA hc ih => rw [(connectBlock_chain hc).1, ih, List.reverse_cons, List.append_assoc]
  | idle h hs ih => rw [hs.chain, ih]

theorem replayPass_accepted (hs₀ : s₀.height = 1) (h : Accepted C E A s₀ x t)
    (hs : SameCore s s₀) :
    ∃ s', SameCore s' t ∧ ∀ rest, replayPass C E A ((placedBlocks x).map blockEntry ++ rest) s =
      { replayPass C E A rest s' with progressed := !x.isEmpty || (replayPass C E A rest s').progressed } := by
  induction h with
  | start => exact ⟨s, hs, fun rest => rfl⟩
  | @connect below b t t' A' h hA hc ih =>
    obtain ⟨s', hcore, hpass⟩ := ih
    obtain ⟨hfst, hsnd⟩ := hcore.connectBlock (C := C) (E := E) (A := A) b
    rw [connectBlock_before hA hc] at hfst hsnd
    have hconnect : connectBlock C E A b s' = (.ok (), (connectBlock C E A b s').2) := Prod.ext hfst rfl
    have hskip : ¬(below.length + 1 = 0 ∨ below.length + 1 ≤ s'.tipHeight) := by
      rw [tipHeight, hcore.height, h.height hs₀]
      omega
    refine ⟨_, hsnd, fun rest => ?_⟩
    rw [placedBlocks, List.map_append, List.append_assoc, hpass]
    simp only [List.map_cons, List.map_nil, List.singleton_append, replayPass, blockEntry]
    rw [if_neg hskip, hconnect]
    simp
  | idle h hsame ih =>
    obtain ⟨s', hcore, hpass⟩ := ih
    exact ⟨s', hcore.trans hsame.symm, hpass⟩

theorem Accepted.body (hs₀ : s₀.height = 1) (h : Accepted C E A s₀ x t) {p : Nat × Block}
    (hp : p ∈ placedBlocks x) : p.2.transactions ≠ [] ∧ p.2.merkleRoot C = p.2.header.merkleRoot := by
  induction h with
  | start => exact absurd hp List.not_mem_nil
  | connect h hA hc ih =>
    rcases List.mem_append.mp hp with hp | hp
    · exact ih hp
    · obtain rfl := List.mem_singleton.mp hp
      exact connectBlock_body (by rw [h.height hs₀]; omega) hc
  | idle h hs ih => exact ih hp

theorem loadPersistedBlocks_accepted (genesisHashLc : String) (hs₀ : s₀.height = 1)
    (h : Accepted C E A s₀ x t) (hs : SameCore s s₀) (hstore : ∀ p ∈ placedBlocks x, Storable C E p.1 p.2)
    (hperm : placed.Perm (placedBlocks x)) :
    ∃ s', loadPersistedBlocks C E A genesisHashLc (placed.map fun p => blockFile C E p.1 p.2) s = ([], s') ∧
      SameCore s' t := by
  obtain ⟨s', hcore, hpass⟩ := replayPass_accepted hs₀ h hs
  have hparse : parseFiles C E genesisHashLc (placed.map fun p => blockFile C E p.1 p.2) =
      (placed.map blockEntry, []) := parseFiles_blockFiles genesisHashLc fun p hp => by
    have hmem := hperm.mem_iff.mp hp
    exact ⟨(placedBlocks_height hmem).1, hstore p hmem, h.body hs₀ hmem⟩
  have hall := hpass []
  rw [List.append_nil] at hall
  refine ⟨s', ?_, hcore⟩
  rw [loadPersistedBlocks, hparse, sortByKey_entries hperm]
  simp [replayRounds, hall, replayPass]

end

/-- A block accepted above genesis is read back from its file exactly when it is storable, and a node that restarts
with the files of a main chain of storable blocks, whatever their order, ends up with this chain and moves no file
away. -/
theorem restart_restores_iff_storable (C : Crypto) (E : NodeEnv) (A : Ambient) (genesisHashLc : String) :
    (∀ s t b, 0 < s.height → connectBlock C E A b s = (.ok (), t) →
      ((∃ file, writeBlockJson C E s.height b = .ok file ∧
        parsePersistedBlockFile C E genesisHashLc file = .ok (s.height, b)) ↔ Storable C E s.height b)) ∧
    ∀ params s₀ s t x (placed : List (Nat × Block)), new C E A params = some s₀ → Accepted C E A s₀ x t →
      (∀ p ∈ placedBlocks x, Storable C E p.1 p.2) → SameCore s s₀ → placed.Perm (placedBlocks x) →
      ∃ s', loadPersistedBlocks C E A genesisHashLc (placed.map fun p => blockFile C E p.1 p.2) s = ([], s') ∧
        s'.chain = t.chain ∧ t.chain = params.genesisBlock :: x.reverse := by
  refine ⟨fun s t b hpos hc => ?_, fun params s₀ s t x placed hnew h hstore hs hperm => ?_⟩
  · obtain ⟨htxs, hroot⟩ := connectBlock_body hpos hc
    exact parse_write_iff C E s.height b genesisHashLc hpos htxs hroot
  · have hs₀ : s₀.height = 1 := new_height hnew
    obtain ⟨s', hload, hcore⟩ := loadPersistedBlocks_accepted genesisHashLc hs₀ h hs hstore hperm
    refine ⟨s', hload, hcore.chain, ?_⟩
    rw [h.chain, (new_chain hnew).1]
    rfl

/-- The first devnet block of the tests comes back after a restart. -/
theorem first_block_survives_restart :
    ∃ s₀ t s', new shaCrypto devnetNode quietAmbient devnetParams = some s₀ ∧
      connectBlock shaCrypto devnetNode quietAmbient firstWithCoinbase s₀ = (.ok (), t) ∧
      Storable shaCrypto devnetNode 1 firstWithCoinbase ∧
      (∃ file, writeBlockJson shaCrypto devnetNode s₀.height firstWithCoinbase = .ok file ∧
        parsePersistedBlockFile shaCrypto devnetNode "" file = .ok (s₀.height, firstWithCoinbase)) ∧
      loadPersistedBlocks shaCrypto devnetNode quietAmbient "" [blockFile shaCrypto devnetNode 1 firstWithCoinbase] s₀ =
        ([], s') ∧ s'.chain = [lockedGenesis, firstWithCoinbase] := by
  obtain ⟨s₀, hnew, hok, hstore⟩ := exists_of_any (new shaCrypto devnetNode quietAmbient devnetParams)
    (fun s₀ => (connectBlock shaCrypto devnetNode quietAmbient firstWithCoinbase s₀).1 = .ok () ∧
        Storable shaCrypto devnetNode 1 firstWithCoinbase) (by decide +kernel)
  have hconnect : connectBlock shaCrypto devnetNode quietAmbient firstWithCoinbase s₀ = (.ok (), _) := Prod.ext hok rfl
  have hheight : s₀.height = 1 := new_height hnew
  obtain ⟨hblock, hload⟩ := restart_restores_iff_storable shaCrypto devnetNode quietAmbient ""
  have hstart : Accepted shaCrypto devnetNode quietAmbient s₀ [] s₀ := .start
  have haccepted := hstart.connect ⟨le_rfl, rfl⟩ hconnect
  have hall : ∀ p ∈ placedBlocks [firstWithCoinbase], Storable shaCrypto devnetNode p.1 p.2 := by
    intro p hp
    obtain rfl := List.mem_singleton.mp hp
    exact hstore
  obtain ⟨s', hs', hchain, heq⟩ := hload devnetParams s₀ s₀ _ [firstWithCoinbase] [(1, firstWithCoinbase)] hnew haccepted
    hall (.refl s₀) (.refl _)
  refine ⟨s₀, _, s', hnew, hconnect, hstore, ?_, hs', hchain.trans heq⟩
  exact (hblock s₀ _ firstWithCoinbase (by omega) hconnect).mpr (by rwa [hheight])

/-- Its own hash misses the target, the one of a miner that swaps the bytes of the parent hash meets it. -/
def swappedHashBlock : Block :=
  devnetBlock lockedGenesisHash repeatedCoinbaseTxid.reverse 1767583931 10 [repeatedCoinbase]

/-- A block accepted by its byte-swapped hash is lost at the next restart: its file is refused and moved away. -/
theorem swapped_hash_block_is_lost :
    ∃ s₀ t, new shaCrypto devnetNode quietAmbient devnetParams = some s₀ ∧
      connectBlock shaCrypto devnetNode quietAmbient swappedHashBlock s₀ = (.ok (), t) ∧
      writeBlockJson shaCrypto devnetNode s₀.height swappedHashBlock =
        .ok (blockFile shaCrypto devnetNode 1 swappedHashBlock) ∧
      parsePersistedBlockFile shaCrypto devnetNode "" (blockFile shaCrypto devnetNode 1 swappedHashBlock) =
        .error "header hash does not meet declared target" ∧
      loadPersistedBlocks shaCrypto devnetNode quietAmbient "" [blockFile shaCrypto devnetNode 1 swappedHashBlock] s₀ =
        (["block_1.json"], s₀) := by
  obtain ⟨s₀, hnew, hok, hfits, hcheck⟩ := exists_of_any (new shaCrypto devnetNode quietAmbient devnetParams)
    (fun s₀ => (connectBlock shaCrypto devnetNode quietAmbient swappedHashBlock s₀).1 = .ok () ∧
        swappedHashBlock.TextFits ∧ checkPersisted shaCrypto devnetNode "" 1 swappedHashBlock =
          .error "header hash does not meet declared target") (by decide +kernel)
  have hparse : parsePersistedBlockFile shaCrypto devnetNode "" (blockFile shaCrypto devnetNode 1 swappedHashBlock) =
      .error "header hash does not meet declared target" := by
    rw [parsePersistedBlockFile_blockFile _ _ _ _ _ (by decide) hfits, hcheck]
    rfl
  have hname : blockHeightFromFilename (blockFileName 1) = some 1 := blockHeightFromFilename_blockFileName (by decide)
  have hfile : (blockFile shaCrypto devnetNode 1 swappedHashBlock).name = blockFileName 1 := rfl
  refine ⟨s₀, _, hnew, Prod.ext hok rfl, ?_, hparse, ?_⟩
  · rw [new_height hnew]
    rfl
  · simp only [loadPersistedBlocks, parseFiles, hfile, hname, hparse]
    rfl

end IriumConsensus
