import IriumConsensus.IndexInvariant
import IriumConsensus.Persist.Load

namespace IriumConsensus

open ByteCodec Checks FinMaps Stateful Relation

namespace ChainState

def mainHash (C : Crypto) (E : NodeEnv) (s : ChainState) (h : Nat) : Option Hash32 :=
  s.chain[h]?.map fun b => b.header.hashForHeight C E h

theorem Holding.mainHash_height {C : Crypto} {E : NodeEnv} {genesis : Block} {H H' W W' : FinMap Hash32 Nat}
    {added : Option (Hash32 × Block)} {h : Nat} {hash : Hash32} {s : ChainState}
    (hs : Holding C E genesis H W H' W' added s) (hm : mainHash C E s h = some hash) : H.lookup hash = some h := by
  obtain ⟨c, hc, rfl⟩ := Option.map_eq_some_iff.mp hm
  rcases hs.chain.getElem? hc with ⟨rfl, -, hheight⟩ | ⟨i, rfl, hrec⟩
  · exact hheight
  · exact hrec.height

section

variable (C : Crypto) (E : NodeEnv) (A : Ambient)

def setAnchors (anchors : List AnchorHeader) (s : ChainState) : ChainState := { s with anchors := some anchors }

def AnchoredAt (anchors : List AnchorHeader) (height : Nat) (hash : Hash32) : Prop :=
  verifyBlockAgainstAnchors anchors height (encodeHex hash.bytes)

instance (anchors : List AnchorHeader) (height : Nat) (hash : Hash32) : Decidable (AnchoredAt anchors height hash) :=
  inferInstanceAs (Decidable (_ = true))

/-- The calls of `connect_block` in a pass over the persisted blocks. -/
def replayPassCalls : List PersistedBlock → ChainState → List Call
  | [], _ => []
  | p :: rest, s =>
    if p.height = 0 ∨ p.height ≤ s.tipHeight then replayPassCalls rest s
    else (s, p.block) :: replayPassCalls rest (connectBlock C E A p.block s).2

def replayRoundsCalls : Nat → List PersistedBlock → ChainState → List Call
  | 0, _, _ => []
  | rounds + 1, pending, s =>
    let r := replayPass C E A pending s
    replayPassCalls C E A pending s ++
      if r.progressed = false ∨ r.deferred.isEmpty then [] else replayRoundsCalls rounds r.deferred r.state

/-- The calls of `connect_block` when a node starts. -/
def loadCalls (genesisHashLc : String) (files : List BlockFile) (s : ChainState) : List Call :=
  replayRoundsCalls C E A 5 (sortByKey PersistedBlock.height (parseFiles C E genesisHashLc files).1) s

def Permitted (anchors : List AnchorHeader) (s : ChainState) (b : Block) : Prop :=
  b.header.prevHash = tipHash C E s →
    blockHash C E s b ∉ s.heights ∧ AnchoredAt anchors s.height (blockHash C E s b)

instance (anchors : List AnchorHeader) (s : ChainState) (b : Block) : Decidable (Permitted C E anchors s b) :=
  inferInstanceAs (Decidable (_ → _))

def AnchoredIndex (anchors : List AnchorHeader) (genesis : Block) (s : ChainState) : Prop :=
  Consistent C E genesis s ∧ ∀ hash h, s.heights.lookup hash = some h → AnchoredAt anchors h hash

end

variable {C : Crypto} {E : NodeEnv} {A : Ambient} {genesis b : Block} {hash : Hash32} {h : Nat}
  {anchors : List AnchorHeader} {s s' : ChainState}

section

variable {P : ChainState → Prop} {Allowed : ChainState → Block → Prop}
  (hconnect : ∀ s b, Allowed s b → P s → P (connectBlock C E A b s).2)

include hconnect

theorem replayPass_keeps (pending : List PersistedBlock)
    (hcalls : ∀ call ∈ replayPassCalls C E A pending s, Allowed call.1 call.2) (hs : P s) :
    P (replayPass C E A pending s).state := by
  induction pending generalizing s with
  | nil => exact hs
  | cons p rest ih =>
    rw [replayPassCalls] at hcalls
    rw [replayPass]
    split
    next hskip =>
      rw [if_pos hskip] at hcalls
      exact ih hcalls hs
    next hskip =>
      rw [if_neg hskip, List.forall_mem_cons] at hcalls
      have hrest := ih hcalls.2 (hconnect s p.block hcalls.1 hs)
      rcases hr : connectBlock C E A p.block s with ⟨e | u, s'⟩
      · rw [hr] at hrest
        dsimp only
        split
        · exact hrest
        · exact hrest
      · rw [hr] at hrest
        exact hrest

theorem replayRounds_keeps (rounds : Nat) (pending : List PersistedBlock)
    (hcalls : ∀ call ∈ replayRoundsCalls C E A rounds pending s, Allowed call.1 call.2) (hs : P s) :
    P (replayRounds C E A rounds pending s).2 := by
  induction rounds generalizing pending s with
  | zero => exact hs
  | succ rounds ih =>
    simp only [replayRoundsCalls, List.forall_mem_append] at hcalls
    have hpass := replayPass_keeps hconnect pending hcalls.1 hs
    simp only [replayRounds]
    split
    next => exact hpass
    next hmore =>
      rw [if_neg hmore] at hcalls
      exact ih _ hcalls.2 hpass

end

def atTip (C : Crypto) (E : NodeEnv) (s : ChainState) (b : Block) : Placement :=
  ⟨s.height, blockHash C E s b, s.height, s.totalWork + b.work⟩

theorem connectBlock_addToIndex {u : Unit} (hr : connectBlock C E A b s = (.ok u, s')) :
    connectBlock C E A b (addToIndex s b (atTip C E s b)) = (.ok u, s') := by
  obtain ⟨hv, undo, L, hL, hissued, rfl⟩ := connectBlock_eq_ok.mp hr
  have hcore : SameCore (addToIndex s b (atTip C E s b)) s := SameCore.reindex s _ s.anchors s.reorgOrphanedBlocks
  have hpush : pushBlock C E ((addToIndex s b (atTip C E s b)).setLedger L) b undo =
      pushBlock C E (s.setLedger L) b undo := by
    have hstore := insert_of_lookup (m := s.blockStore.insert (blockHash C E s b) b) (Finmap.lookup_insert _)
    have hheights := insert_of_lookup (m := s.heights.insert (blockHash C E s b) s.height) (Finmap.lookup_insert _)
    have hworks := insert_of_lookup (m := s.cumulativeWork.insert (blockHash C E s b) (s.totalWork + b.work))
      (Finmap.lookup_insert _)
    calc pushBlock C E ((addToIndex s b (atTip C E s b)).setLedger L) b undo
        = { pushBlock C E (s.setLedger L) b undo with
            blockStore := (s.blockStore.insert (blockHash C E s b) b).insert (blockHash C E s b) b
            heights := (s.heights.insert (blockHash C E s b) s.height).insert (blockHash C E s b) s.height
            cumulativeWork := (s.cumulativeWork.insert (blockHash C E s b) (s.totalWork + b.work)).insert
              (blockHash C E s b) (s.totalWork + b.work) } := rfl
      _ = pushBlock C E (s.setLedger L) b undo := by
        rw [hstore, hheights, hworks]
        rfl
  refine connectBlock_eq_ok.mpr ⟨by rw [hcore.sameChecks.validateBlock, hv], undo, L, hL, hissued, ?_⟩
  rw [acceptBlock, acceptBlock, hpush]
  rfl

theorem connectBlock_indexed (hs : Consistent C E genesis s)
    (hfresh : b.header.prevHash = tipHash C E s → blockHash C E s b ∉ s.heights) :
    Consistent C E genesis (connectBlock C E A b s).2 ∧
      ((connectBlock C E A b s).2.heights = s.heights ∨ b.header.prevHash = tipHash C E s ∧
        (connectBlock C E A b s).2.heights = s.heights.insert (blockHash C E s b) s.height) := by
  obtain ⟨hold, hclosed⟩ := hs
  have hpos := hold.pos
  rcases hr : connectBlock C E A b s with ⟨e | u, s'⟩
  · have hrefused := hold.refused hr
    exact ⟨hrefused.consistent hclosed, .inl hrefused.heights⟩
  · have hv := (connectBlock_eq_ok.mp hr).1
    have hprev := validateBlock_parent hv (List.ne_nil_of_length_pos hpos)
    have hnew := hfresh hprev
    have hlen : s.height = s.chain.length - 1 + 1 := by rw [hold.height]; omega
    obtain ⟨hheight, hwork⟩ := hold.tip
    rw [← hprev] at hheight hwork
    have hown : blockHash C E s b = b.header.hashForHeight C E (s.chain.length - 1 + 1) := by rw [blockHash, hlen]
    obtain ⟨hrecorded, hadded⟩ := Consistent.adds (p := atTip C E s b) ⟨hold, hclosed⟩ hheight hwork hown hnew rfl hlen
      rfl
    have hh := submap_insert_of_notMem (v := s.chain.length - 1 + 1) hnew
    have hw := submap_insert_of_notMem (v := s.totalWork + b.work) fun hmem => hnew (hclosed.worked _ hmem)
    have hdone := (connectBlock_added hh hw hrecorded hown).ok hadded (connectBlock_addToIndex hr)
    rw [hlen]
    exact ⟨hdone.consistent (hclosed.insert hh hw hown hrecorded), .inr ⟨hprev, hdone.heights⟩⟩

theorem anchored_insert {m : FinMap Hash32 Nat} (hm : ∀ k i, m.lookup k = some i → AnchoredAt anchors i k)
    (hnew : AnchoredAt anchors h hash) : ∀ k i, (m.insert hash h).lookup k = some i → AnchoredAt anchors i k := by
  intro k i hi
  rw [lookup_insert_eq] at hi
  split at hi
  next heq =>
    cases hi
    exact heq ▸ hnew
  next => exact hm k i hi

theorem AnchoredIndex.connect (hs : AnchoredIndex C E anchors genesis s) (hb : Permitted C E anchors s b) :
    AnchoredIndex C E anchors genesis (connectBlock C E A b s).2 := by
  obtain ⟨hcons, hheights⟩ := connectBlock_indexed (A := A) hs.1 fun hprev => (hb hprev).1
  refine ⟨hcons, ?_⟩
  rcases hheights with heq | ⟨hprev, heq⟩
  · rw [heq]
    exact hs.2
  · rw [heq]
    exact anchored_insert hs.2 (hb hprev).2

theorem checkPlacement_anchored {p : Placement} {u : Unit} (hanchors : s.anchors = some anchors)
    (h : checkPlacement C E s b p = .ok u) : AnchoredAt anchors p.height p.hash := by
  simp only [checkPlacement, bind_eq_ok, exists_unit, failIf_eq_ok, hanchors, Option.any_some] at h
  simpa [AnchoredAt] using h.2.2

theorem AnchoredIndex.place (hs : AnchoredIndex C E anchors genesis s) (hanchors : s.anchors = some anchors)
    (hb : Indexable C E s b) (hparent : b.header.prevHash ≠ ByteVec.zero 32 → b.header.prevHash ∈ s.blockStore)
    (hcheck : checkPlacement C E s b (place C E s b) = .ok ()) :
    AnchoredIndex C E anchors genesis (indexAndAdopt C E A b (ChainState.place C E s b) s).2 := by
  obtain ⟨hcons, hheights⟩ := indexAndAdopt_indexed (A := A) hs.1 hb hparent hcheck
  refine ⟨hcons, ?_⟩
  rcases hheights with heq | heq
  · rw [heq]
    exact hs.2
  · rw [heq]
    exact anchored_insert hs.2 (checkPlacement_anchored hanchors hcheck)

theorem pruneCaches_anchors (hs : s.anchors = some anchors) : (pruneCaches C E s).anchors = some anchors := by
  obtain ⟨headers, headerChain, store, heq, -⟩ := pruneCaches_index (C := C) (E := E) s
  rw [heq]
  exact hs

theorem moves_anchors : Moves C E (Keeps fun s => s.anchors = some anchors) :=
  .of_keeps (fun _ _ hs => hs) (fun _ _ _ _ _ _ _ _ _ hs => hs) (fun _ hs => pruneCaches_anchors hs)
    (fun _ _ _ _ hs => hs) fun _ _ hs => hs

/-- If start-up connects only persisted blocks that the anchors permit, then the main chain keeps to the anchors,
whatever blocks arrive later and however the node switches branches. -/
theorem anchors_bind_chain {params : ChainParams} {s₀ : ChainState} {genesisHashLc : String} {files : List BlockFile}
    (hnew : new C E A params = some s₀)
    (hgenesis : AnchoredAt anchors 0 (params.genesisBlock.header.hashForHeight C E 0))
    (hload : ∀ call ∈ loadCalls C E A genesisHashLc files s₀, Permitted C E anchors call.1 call.2)
    (hrun : ReflTransGen (CallStep C E (Indexable C E))
      (setAnchors anchors (loadPersistedBlocks C E A genesisHashLc files s₀).2) s) :
    ∀ height hash, mainHash C E s height = some hash → AnchoredAt anchors height hash := by
  have hstart : AnchoredIndex C E anchors params.genesisBlock s₀ := by
    refine ⟨new_consistent hnew, ?_⟩
    obtain ⟨undo, L, -, rfl⟩ := new_eq_some hnew
    exact anchored_insert (by simp [acceptGenesis, setLedger, blank]) hgenesis
  have hloaded : AnchoredIndex C E anchors params.genesisBlock (loadPersistedBlocks C E A genesisHashLc files s₀).2 :=
    replayRounds_keeps (P := AnchoredIndex C E anchors params.genesisBlock) (fun _ _ hb hs => hs.connect hb) 5 _ hload
      hstart
  have hs : s.anchors = some anchors ∧ AnchoredIndex C E anchors params.genesisBlock s := by
    refine calls_keep (P := fun s => s.anchors = some anchors ∧ AnchoredIndex C E anchors params.genesisBlock s)
      ?_ ?_ ?_ hrun ⟨rfl, ?_⟩
    · rintro t pool ⟨ht, hi⟩
      exact ⟨ht, hi.1.setPool pool, hi.2⟩
    · rintro t ⟨ht, hi⟩
      refine ⟨pruneCaches_anchors ht, hi.1.prune, ?_⟩
      rw [hi.1.1.prune.heights]
      exact hi.2
    · rintro A b t hb hparent hcheck ⟨ht, hi⟩
      exact ⟨moves_anchors.indexAndAdopt A (fun _ ht => ht) ht, hi.place ht hb hparent hcheck⟩
    · obtain ⟨⟨hold, hclosed⟩, hanchored⟩ := hloaded
      exact ⟨⟨⟨rfl, rfl, hold.height, hold.bestTip, hold.chain, hold.store, hold.kept⟩, hclosed⟩, hanchored⟩
  intro height hash hmain
  exact hs.2.2 hash height (hs.2.1.1.mainHash_height hmain)

def lowAnchors : List AnchorHeader :=
  [⟨1, "3224e2d5ff9604977a419dd95e2fcc86a27a7609b4874bb46f70b1515e4c7add"⟩,
    ⟨2, "1f348edf151895209940a85d643cb5036368e4fda04b75746e084d7e387a588d"⟩]

def forkAnchors : List AnchorHeader :=
  [⟨1, "39bf5166b4830bcd8a8b9f105c8c769ae516f97712cc751f26101dd69bbd12ff"⟩,
    ⟨2, "1d1cb09d4852a658347ed9ec6b33e2f9a7459e4572353df9db6a4185857c421c"⟩]

theorem parseFiles_lowBlock (hstore : Storable shaCrypto devnetNode 1 lowBlock) :
    parseFiles shaCrypto devnetNode "" [blockFile shaCrypto devnetNode 1 lowBlock] = ([blockEntry (1, lowBlock)], []) := by
  have hplaced : ∀ p ∈ [(1, lowBlock)], 0 < p.1 ∧ Storable shaCrypto devnetNode p.1 p.2 ∧ p.2.transactions ≠ [] ∧
      p.2.merkleRoot shaCrypto = p.2.header.merkleRoot := by
    intro p hp
    obtain rfl := List.mem_singleton.mp hp
    exact ⟨Nat.one_pos, hstore, by decide, by decide +kernel⟩
  have hparse := parseFiles_blockFiles "" hplaced
  rwa [List.map_singleton, List.map_singleton] at hparse

theorem low_chain_anchored :
    ∃ s₀ s, new shaCrypto devnetNode quietAmbient devnetParams = some s₀ ∧
      (∀ call ∈ loadCalls shaCrypto devnetNode quietAmbient "" [blockFile shaCrypto devnetNode 1 lowBlock] s₀,
        Permitted shaCrypto devnetNode lowAnchors call.1 call.2) ∧
      ReflTransGen (CallStep shaCrypto devnetNode (Indexable shaCrypto devnetNode))
        (setAnchors lowAnchors
          (loadPersistedBlocks shaCrypto devnetNode quietAmbient "" [blockFile shaCrypto devnetNode 1 lowBlock] s₀).2) s ∧
      s.chain = [lockedGenesis, lowBlock, firstChild] ∧
      ∀ height hash, mainHash shaCrypto devnetNode s height = some hash → AnchoredAt lowAnchors height hash := by
  obtain ⟨s₀, hnew, hstore, hload, hgenesis, hcalls, hchain⟩ :=
    exists_of_any (new shaCrypto devnetNode quietAmbient devnetParams)
    (fun s₀ =>
      let s₁ := setAnchors lowAnchors
        (replayRounds shaCrypto devnetNode quietAmbient 5 [blockEntry (1, lowBlock)] s₀).2
      Storable shaCrypto devnetNode 1 lowBlock ∧
        (∀ call ∈ replayRoundsCalls shaCrypto devnetNode quietAmbient 5 [blockEntry (1, lowBlock)] s₀,
          Permitted shaCrypto devnetNode lowAnchors call.1 call.2) ∧
        AnchoredAt lowAnchors 0 (devnetParams.genesisBlock.header.hashForHeight shaCrypto devnetNode 0) ∧
        (∀ call ∈ processCalls shaCrypto devnetNode quietAmbient 2 firstChild s₁,
          Indexable shaCrypto devnetNode call.1 call.2) ∧
        (processBlock shaCrypto devnetNode quietAmbient 2 firstChild s₁).2.chain =
          [lockedGenesis, lowBlock, firstChild]) (by decide +kernel)
  have hparse := parseFiles_lowBlock hstore
  have hsort : sortByKey PersistedBlock.height [blockEntry (1, lowBlock)] = [blockEntry (1, lowBlock)] := rfl
  have hcalls' : loadCalls shaCrypto devnetNode quietAmbient "" [blockFile shaCrypto devnetNode 1 lowBlock] s₀ =
      replayRoundsCalls shaCrypto devnetNode quietAmbient 5 [blockEntry (1, lowBlock)] s₀ := by
    rw [loadCalls, hparse, hsort]
  have hloaded :
      (loadPersistedBlocks shaCrypto devnetNode quietAmbient "" [blockFile shaCrypto devnetNode 1 lowBlock] s₀).2 =
        (replayRounds shaCrypto devnetNode quietAmbient 5 [blockEntry (1, lowBlock)] s₀).2 := by
    rw [loadPersistedBlocks, hparse, hsort]
  rw [← hcalls'] at hload
  rw [← hloaded] at hcalls hchain
  have hrun : ReflTransGen (CallStep shaCrypto devnetNode (Indexable shaCrypto devnetNode)) _ _ :=
    .single ⟨quietAmbient, 2, firstChild, hcalls, rfl⟩
  exact ⟨s₀, _, hnew, hload, hrun, hchain, anchors_bind_chain hnew hgenesis hload hrun⟩

/-- A node that had followed the low block loads it again, and the anchors that it then sets name another block. -/
theorem persisted_chain_unanchored :
    ∃ s₀ s, new shaCrypto devnetNode quietAmbient devnetParams = some s₀ ∧
      loadPersistedBlocks shaCrypto devnetNode quietAmbient "" [blockFile shaCrypto devnetNode 1 lowBlock] s₀ = ([], s) ∧
      (setAnchors forkAnchors s).anchors = some forkAnchors ∧
      (setAnchors forkAnchors s).chain = [lockedGenesis, lowBlock] ∧
      mainHash shaCrypto devnetNode (setAnchors forkAnchors s) 1 = some lowHash ∧
      ¬ AnchoredAt forkAnchors 1 lowHash := by
  obtain ⟨s₀, hnew, hstore, hmoved, hchain, hmain, hanchor⟩ :=
    exists_of_any (new shaCrypto devnetNode quietAmbient devnetParams)
    (fun s₀ =>
      let r := replayRounds shaCrypto devnetNode quietAmbient 5 [blockEntry (1, lowBlock)] s₀
      Storable shaCrypto devnetNode 1 lowBlock ∧ r.1 = [] ∧ r.2.chain = [lockedGenesis, lowBlock] ∧
        mainHash shaCrypto devnetNode r.2 1 = some lowHash ∧ ¬ AnchoredAt forkAnchors 1 lowHash) (by decide +kernel)
  refine ⟨s₀, _, hnew, ?_, rfl, hchain, hmain, hanchor⟩
  rw [loadPersistedBlocks, parseFiles_lowBlock hstore]
  exact Prod.ext hmoved rfl

end ChainState

end IriumConsensus
