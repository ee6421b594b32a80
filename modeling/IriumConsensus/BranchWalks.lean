import IriumConsensus.AdoptableFilter
import IriumConsensus.Lib.Descent

namespace IriumConsensus

open ByteCodec Checks FinMaps Stateful Relation Descent

namespace ChainState

section

variable (C : Crypto) (E : NodeEnv) (s : ChainState)

def parentOf (prevHash : Hash32) : Option (Nat × Nat) :=
  match s.heights.lookup prevHash with
  | some h => some (h, (s.cumulativeWork.lookup prevHash).getD 0)
  | none => (s.headers.lookup prevHash).map fun hw => (hw.height, hw.work)

/-- Full validation of a merged-mined header needs the block and is left to `process_block`. -/
def checkHeaderWork (header : BlockHeader) (height : Nat) (hash : Hash32) : Except String Unit :=
  if header.version &&& auxpowVersionBit ≠ 0 ∧ activeFrom s.params.auxpowActivationHeight height then pure ()
  else failIf (meetsTarget hash header.target = false) "header does not meet target"

def addHeader (header : BlockHeader) : Run ChainState String Nat := do
  let s ← read
  let parent ← lift (orFail (parentOf s header.prevHash) "unknown parent")
  let height := parent.1 + 1
  let hash := header.hashForHeight C E height
  if hash ∈ s.headers ∨ hash ∈ s.heights then return (knownHeight s hash).getD 0
  else do
    lift (checkHeaderWork s header height hash)
    update fun s => { s with
      headers := s.headers.insert hash ⟨header, height, parent.2 + workForTarget header.target⟩
      headerChain := s.headerChain ++ [hash] }
    return height

def isConnectedChainHash (hash : Hash32) : Bool :=
  match s.heights.lookup hash with
  | none => false
  | some height =>
    match s.chain[height]? with
    | none => false
    | some b => decide (b.header.hashForHeight C E height = hash)

/-- The result is `none` if the loop has not ended after the given number of passes. -/
def headerPathToKnown : Nat → Hash32 → List Hash32 → Option (Option (List Hash32))
  | 0, _, _ => none
  | passes + 1, current, path =>
    if isConnectedChainHash C E s current then some (some path)
    else
      match s.headers.lookup current with
      | none => some none
      | some hw =>
        if hw.header.prevHash = ByteVec.zero 32 then some none
        else headerPathToKnown passes hw.header.prevHash (current :: path)

/-- The loop of `header_fork_ancestor_height` without its guard; `none` if it has not ended. -/
def forkAncestorLoop (floor : Nat) : Nat → Hash32 → Option (Option Nat)
  | 0, _ => none
  | passes + 1, cur =>
    match knownHeight s cur with
    | none => some none
    | some h =>
      if s.chain[h]?.any (fun b => decide (b.header.hashForHeight C E h = cur)) then some (some h)
      else if h ≤ floor then some none
      else
        match ((s.headers.lookup cur).map fun hw => hw.header.prevHash).or
          ((s.blockStore.lookup cur).map fun b => b.header.prevHash) with
        | none => some none
        | some prev => forkAncestorLoop floor passes prev

def storedHashes : Finset Hash32 :=
  s.headers.keys ∪ s.blockStore.keys ∪ (s.chain.mapIdx fun i b => b.header.hashForHeight C E i).toFinset

end

section

variable (C : Crypto) (E : NodeEnv) (H : Set BlockHeader)

/-- The headers of `H` that have one hash are written alike, and none has the hash that stands for no parent. -/
structure HashesFree : Prop where
  inj : ∀ header ∈ H, ∀ header' ∈ H, ∀ h h', header.hashForHeight C E h = header'.hashForHeight C E h' →
    header.serializeForHeight E h = header'.serializeForHeight E h'
  ne_zero : ∀ header ∈ H, ∀ h, header.hashForHeight C E h ≠ ByteVec.zero 32

/-- A hash that `depth` headers of `H` connect with one that names no parent. -/
inductive Rooted : Hash32 → Nat → Prop
  | root {header : BlockHeader} (h : Nat) (hmem : header ∈ H) (hprev : header.prevHash = ByteVec.zero 32) :
      Rooted (header.hashForHeight C E h) 0
  | child {header : BlockHeader} {depth : Nat} (h : Nat) (hmem : header ∈ H) (hparent : Rooted header.prevHash depth) :
      Rooted (header.hashForHeight C E h) (depth + 1)

variable {C E H} {header header' : BlockHeader} {h h' d d' : Nat} {hash : Hash32}

theorem HashesFree.prevHash_eq (hfree : HashesFree C E H) (hmem : header ∈ H) (hmem' : header' ∈ H)
    (heq : header.hashForHeight C E h = header'.hashForHeight C E h') : header.prevHash = header'.prevHash := by
  have hser := hfree.inj header hmem header' hmem' h h' heq
  simp only [BlockHeader.serializeForHeight, List.append_assoc] at hser
  obtain ⟨-, hrest⟩ := List.append_inj hser (by simp [le32])
  obtain ⟨hprev, -⟩ := List.append_inj hrest (by simp)
  exact ByteVec.reverse_injective (ByteVec.ext hprev)

theorem Rooted.ne_zero (hfree : HashesFree C E H) (hr : Rooted C E H hash d) : hash ≠ ByteVec.zero 32 := by
  cases hr with
  | root h hmem => exact hfree.ne_zero _ hmem h
  | child h hmem => exact hfree.ne_zero _ hmem h

theorem Rooted.unique (hfree : HashesFree C E H) (hr : Rooted C E H hash d) (hr' : Rooted C E H hash d') : d = d' := by
  induction hr generalizing d' with
  | @root header h hmem hprev =>
    generalize hk : header.hashForHeight C E h = k at hr'
    cases hr' with
    | root => rfl
    | child h' hmem' hparent =>
      rw [← hfree.prevHash_eq hmem hmem' hk, hprev] at hparent
      exact absurd rfl (hparent.ne_zero hfree)
  | @child header d h hmem hparent ih =>
    generalize hk : header.hashForHeight C E h = k at hr'
    cases hr' with
    | root h' hmem' hprev =>
      rw [hfree.prevHash_eq hmem hmem' hk, hprev] at hparent
      exact absurd rfl (hparent.ne_zero hfree)
    | child h' hmem' hparent' =>
      rw [← hfree.prevHash_eq hmem hmem' hk] at hparent'
      rw [ih hparent']

theorem Rooted.parent_lt (hfree : HashesFree C E H) (hmem : header ∈ H) (hr : Rooted C E H (header.hashForHeight C E h) d)
    (hparent : Rooted C E H header.prevHash d') : d' < d := by
  rw [hr.unique hfree (.child h hmem hparent)]
  exact Nat.lt_succ_self d'

end

section

/-- Every header and block lies under its own hash above a root, the blocks of the main chain at their heights. A hash
that is left in the index without its block keeps its height. -/
structure Grounded (C : Crypto) (E : NodeEnv) (H : Set BlockHeader) (s : ChainState) : Prop where
  height : s.height = s.chain.length
  pos : s.chain ≠ []
  chain : ∀ i b, s.chain[i]? = some b → b.header ∈ H ∧ Rooted C E H (b.header.hashForHeight C E i) i
  headers : ∀ hash hw, s.headers.lookup hash = some hw →
    hw.header ∈ H ∧ hash = hw.header.hashForHeight C E hw.height ∧ ∃ d, Rooted C E H hash d
  store : ∀ hash b, s.blockStore.lookup hash = some b →
    b.header ∈ H ∧ (∃ h, hash = b.header.hashForHeight C E h) ∧ ∃ d, Rooted C E H hash d
  pruned : ∀ hash h, s.heights.lookup hash = some h → hash ∉ s.blockStore → Rooted C E H hash h

variable {C : Crypto} {E : NodeEnv} {H : Set BlockHeader} {s s' : ChainState} {A : Ambient} {b : Block} {hash : Hash32}

theorem Grounded.known (hs : Grounded C E H s) {h : Nat} (hlook : s.heights.lookup hash = some h) :
    ∃ d, Rooted C E H hash d := by
  by_cases hmem : hash ∈ s.blockStore
  · obtain ⟨b, hb⟩ := Finmap.mem_iff.mp hmem
    exact (hs.store hash b hb).2.2
  · exact ⟨h, hs.pruned hash h hlook hmem⟩

theorem Grounded.tip (hs : Grounded C E H s) : Rooted C E H (tipHash C E s) (s.height - 1) := by
  obtain ⟨b, hb⟩ := List.getLast?_isSome.mpr hs.pos |> Option.isSome_iff_exists.mp
  rw [tipHash, hb, hs.height]
  rw [List.getLast?_eq_getElem?] at hb
  exact (hs.chain _ b hb).2

theorem Grounded.insert (hs : Grounded C E H s) (hmem : b.header ∈ H) {h d k : Nat}
    (hroot : Rooted C E H (b.header.hashForHeight C E h) d) :
    (∀ hash c, (s.blockStore.insert (b.header.hashForHeight C E h) b).lookup hash = some c →
      c.header ∈ H ∧ (∃ h, hash = c.header.hashForHeight C E h) ∧ ∃ d, Rooted C E H hash d) ∧
    ∀ hash h', (s.heights.insert (b.header.hashForHeight C E h) k).lookup hash = some h' →
      hash ∉ s.blockStore.insert (b.header.hashForHeight C E h) b → Rooted C E H hash h' := by
  constructor
  · intro hash c hc
    rw [lookup_insert_eq] at hc
    split at hc
    next heq =>
      cases hc
      exact ⟨hmem, ⟨h, heq⟩, d, heq ▸ hroot⟩
    next => exact hs.store hash c hc
  · intro hash h' hlook hnot
    rw [Finmap.mem_insert, not_or] at hnot
    rw [lookup_insert_eq, if_neg hnot.1] at hlook
    exact hs.pruned hash h' hlook hnot.2

theorem Grounded.push (hs : Grounded C E H s) (hmem : b.header ∈ H) (hprev : b.header.prevHash = tipHash C E s)
    (undo : BlockUndo) : Grounded C E H (pushBlock C E s b undo) := by
  have hpos := List.length_pos_of_ne_nil hs.pos
  have hroot : Rooted C E H (b.header.hashForHeight C E s.height) s.height := by
    have hparent := hs.tip
    rw [← hprev] at hparent
    have hchild := Rooted.child s.height hmem hparent
    rwa [Nat.sub_add_cancel (by rw [hs.height]; exact hpos)] at hchild
  obtain ⟨hstore, hpruned⟩ := hs.insert hmem (k := s.height) hroot
  refine ⟨by simp [pushBlock, hs.height], by simp [pushBlock], fun i c hc => ?_, hs.headers, hstore, hpruned⟩
  rcases Nat.lt_or_ge i s.chain.length with hlt | hge
  · rw [pushBlock, List.getElem?_append_left hlt] at hc
    exact hs.chain i c hc
  · rw [pushBlock, List.getElem?_append_right hge] at hc
    rw [List.getElem?_singleton] at hc
    split at hc
    next hzero =>
      obtain rfl : i = s.height := by
        rw [hs.height]
        omega
      exact Option.some.inj hc ▸ ⟨hmem, hroot⟩
    next => cases hc

theorem Grounded.pruneHeaders (hs : Grounded C E H s) : Grounded C E H (pruneHeaderCache E s) := by
  obtain ⟨headers, headerChain, heq, hsub⟩ := pruneHeaderCache_eq (E := E) s
  rw [heq]
  exact ⟨hs.height, hs.pos, hs.chain, fun hash hw hlook => hs.headers hash hw (hsub hash hw hlook), hs.store, hs.pruned⟩

theorem Grounded.pruneBlocks (hs : Grounded C E H s) : Grounded C E H (pruneBlockStore C E s) := by
  unfold pruneBlockStore
  split_ifs with hwindow
  · exact hs
  · have hsub := submap_retain
      (fun hash (_ : Block) => !(isHashOnMainChain C E s hash).any fun h => decide (h ≤ s.tipHeight - blockStoreWindow E))
      s.blockStore
    refine ⟨hs.height, hs.pos, hs.chain, hs.headers, fun hash b hb => hs.store hash b (hsub hash b hb), ?_⟩
    intro hash h hlook hnot
    by_cases hmem : hash ∈ s.blockStore
    · -- only blocks of the main chain are taken out of the store
      obtain ⟨b, hb⟩ := Finmap.mem_iff.mp hmem
      have hmain : (isHashOnMainChain C E s hash).isSome := by
        by_contra hoff
        rw [Option.not_isSome_iff_eq_none] at hoff
        refine hnot (Finmap.mem_iff.mpr ⟨b, ?_⟩)
        rw [lookup_retain, hb, hoff]
        rfl
      obtain ⟨a, ha⟩ := Option.isSome_iff_exists.mp hmain
      obtain ⟨hheight, c, hc, rfl⟩ := isHashOnMainChain_some_iff.mp ha
      obtain rfl := Option.some.inj (hlook.symm.trans hheight)
      exact (hs.chain h c hc).2
    · exact hs.pruned hash h hlook hmem

theorem Grounded.prune (hs : Grounded C E H s) : Grounded C E H (pruneCaches C E s) := hs.pruneHeaders.pruneBlocks

theorem Grounded.connect (hmem : b.header ∈ H) :
    Triple (Grounded C E H) (connectBlock C E A b) (fun _ => Grounded C E H) (Grounded C E H) := by
  intro s hs
  have hledger : ∀ L, Grounded C E H (s.setLedger L) := fun L =>
    ⟨hs.height, hs.pos, hs.chain, hs.headers, hs.store, hs.pruned⟩
  rcases hr : connectBlock C E A b s with ⟨e | u, s'⟩
  · rcases connectBlock_error hr with ⟨-, rfl⟩ | ⟨-, L, rfl, -⟩
    · exact hs
    · exact hledger L
  · obtain ⟨hv, undo, L, -, -, rfl⟩ := connectBlock_eq_ok.mp hr
    have hprev := validateBlock_parent hv hs.pos
    have hpush := (hledger L).push hmem hprev undo
    obtain ⟨mode, signal, finalized, heq, -⟩ := acceptBlock_pushed (C := C) (E := E) (s.setLedger L) b undo
    dsimp only
    rw [heq]
    exact Grounded.prune ⟨hpush.height, hpush.pos, hpush.chain, hpush.headers, hpush.store, hpush.pruned⟩

theorem Grounded.disconnect :
    Triple (Grounded C E H) (disconnectTipBlock C E) (fun tip s => Grounded C E H s ∧ tip.header ∈ H)
      (Grounded C E H) := by
  intro s hs
  rcases hr : disconnectTipBlock C E s with ⟨e | tip, s'⟩
  · rw [disconnectTipBlock_error hr]
    exact hs
  · obtain ⟨undo, ht, rfl⟩ := disconnectTipBlock_eq_ok.mp hr
    obtain ⟨hlast, hlen, -⟩ := tipUndo_eq_ok.mp ht
    have hne : s.chain.dropLast ≠ [] := List.ne_nil_of_length_pos (by rw [List.length_dropLast]; omega)
    have hchain : ∀ (i : Nat) b, s.chain.dropLast[i]? = some b → s.chain[i]? = some b := by
      intro i b hb
      rw [List.getElem?_dropLast] at hb
      split at hb
      next => exact hb
      next => cases hb
    rw [List.getLast?_eq_getElem?] at hlast
    exact ⟨⟨rfl, hne, fun i b hb => hs.chain i b (hchain i b hb), hs.headers, hs.store, hs.pruned⟩,
      (hs.chain _ tip hlast).1⟩

theorem Grounded.blockByHash (hs : Grounded C E H s) (hb : blockByHash s hash = some b) :
    b.header ∈ H ∧ ∃ d, Rooted C E H hash d ∧ ∃ h, Rooted C E H (b.header.hashForHeight C E h) d ∧
      b.header.hashForHeight C E h ∈ storedHashes C E s := by
  unfold ChainState.blockByHash at hb
  split at hb
  next c hc =>
    cases hb
    obtain ⟨hmem, ⟨h, rfl⟩, d, hr⟩ := hs.store hash b hc
    refine ⟨hmem, d, hr, h, hr, ?_⟩
    simp [storedHashes, Finmap.mem_keys.mpr (Finmap.mem_of_lookup_eq_some hc)]
  next hnone =>
    obtain ⟨h, hlook, hc⟩ := Option.bind_eq_some_iff.mp hb
    obtain ⟨hmem, hr⟩ := hs.chain h b hc
    refine ⟨hmem, h, hs.pruned hash h hlook (Finmap.lookup_eq_none.mp hnone), h, hr, ?_⟩
    refine Finset.mem_union_right _ (List.mem_toFinset.mpr (List.mem_of_getElem? (i := h) ?_))
    rw [List.getElem?_mapIdx, hc, Option.map_some]

theorem Grounded.walkBack_mem (hs : Grounded C E H s) {fuel : Nat} {branch : List Block} {path : Nat × List Block}
    (hbranch : ∀ b ∈ branch, b.header ∈ H) (hwalk : walkBack C E s fuel hash branch = .ok path) :
    ∀ b ∈ path.2, b.header ∈ H := by
  induction fuel generalizing hash branch with
  | zero => cases hwalk
  | succ fuel ih =>
    rw [walkBack] at hwalk
    split at hwalk
    next =>
      cases hwalk
      exact hbranch
    next =>
      simp only [bind_eq_ok, exists_unit, orFail_eq_ok, failIf_eq_ok] at hwalk
      obtain ⟨b, hb, -, hrest⟩ := hwalk
      exact ih (List.forall_mem_cons.mpr ⟨(hs.blockByHash hb).1, hbranch⟩) hrest

theorem grounded_moves : MovesWithin C E (fun b => b.header ∈ H) (Grounded C E H) where
  connect _ _ hb := Grounded.connect hb
  disconnect := Grounded.disconnect
  orphaned _ _ hs := ⟨hs.height, hs.pos, hs.chain, hs.headers, hs.store, hs.pruned⟩

theorem Grounded.addHeader (hs : Grounded C E H s) {header : BlockHeader} (hmem : header ∈ H) :
    Grounded C E H (addHeader C E header s).2 := by
  have htriple : Triple (· = s) (ChainState.addHeader C E header) (fun _ => Grounded C E H) (Grounded C E H) := by
    refine .read_bind fun t ht => .lift_bind (fun _ hu => (hu.trans ht) ▸ hs) fun parent hparent => ?_
    subst ht
    have hroot : ∃ d, Rooted C E H header.prevHash d := by
      rw [orFail_eq_ok, parentOf] at hparent
      split at hparent
      next h hlook => exact hs.known hlook
      next =>
        obtain ⟨hw, hlook, -⟩ := Option.map_eq_some_iff.mp hparent
        exact (hs.headers _ hw hlook).2.2
    obtain ⟨d, hr⟩ := hroot
    extract_lets height hash
    split
    next => exact .pure fun _ ht => ht ▸ hs
    next =>
      refine .lift_bind (fun _ ht => ht ▸ hs) fun _ _ => .update_bind (M := Grounded C E H) (fun t ht => ?_)
        (.pure fun _ ht => ht)
      subst ht
      refine ⟨hs.height, hs.pos, hs.chain, fun hash hw hlook => ?_, hs.store, hs.pruned⟩
      rw [lookup_insert_eq] at hlook
      split at hlook
      next heq =>
        cases hlook
        exact ⟨hmem, heq, d + 1, heq ▸ .child _ hmem hr⟩
      next => exact hs.headers hash hw hlook
  exact htriple.final rfl

theorem place_rooted (hs : Grounded C E H s) (hmem : b.header ∈ H)
    (hparent : b.header.prevHash ≠ ByteVec.zero 32 → b.header.prevHash ∈ s.blockStore) :
    ∃ d, Rooted C E H (place C E s b).hash d := by
  by_cases hzero : b.header.prevHash = ByteVec.zero 32
  · exact ⟨0, .root _ hmem hzero⟩
  · obtain ⟨c, hc⟩ := Finmap.mem_iff.mp (hparent hzero)
    obtain ⟨-, -, d, hr⟩ := hs.store _ c hc
    exact ⟨d + 1, .child _ hmem hr⟩

theorem Grounded.indexAndAdopt (hs : Grounded C E H s) (hmem : b.header ∈ H)
    (hparent : b.header.prevHash ≠ ByteVec.zero 32 → b.header.prevHash ∈ s.blockStore) :
    Grounded C E H (indexAndAdopt C E A b (place C E s b) s).2 := by
  obtain ⟨d, hr⟩ := place_rooted hs hmem hparent
  have hpath : ∀ t tip path, Grounded C E H t → findReorgPath C E t tip = .ok path → ∀ b ∈ path.2, b.header ∈ H :=
    fun t tip path ht hpath => ht.walkBack_mem (by simp) hpath
  refine grounded_moves.indexAndAdopt A hpath hmem ?_ fun t ht => ?_
  · obtain ⟨hstore, hpruned⟩ := hs.insert hmem (k := (place C E s b).height) hr
    exact ⟨hs.height, hs.pos, hs.chain, hs.headers, hstore, hpruned⟩
  · refine ⟨ht.height, ht.pos, ht.chain, ht.headers, fun k c hc => ht.store k c (submap_erase _ _ k c hc), ?_⟩
    intro k h hlook hnot
    have hne : k ≠ (place C E s b).hash := by
      rintro rfl
      simp [removeFromIndex] at hlook
    refine ht.pruned k h (submap_erase _ _ k h hlook) fun hk => hnot ?_
    exact Finmap.mem_erase.mpr ⟨hne, hk⟩

theorem new_grounded {params : ChainParams} (hmem : params.genesisBlock.header ∈ H)
    (hnew : new C E A params = some s) : Grounded C E H s := by
  have hprev : params.genesisBlock.header.prevHash = ByteVec.zero 32 := by
    unfold new at hnew
    split at hnew
    next s' hok =>
      obtain ⟨-, hv, -⟩ := connectGenesis_eq_ok.mp hok
      simp only [validateBlockHeader, checkParent, blank, List.getLast?_nil, bind_eq_ok, exists_unit, failIf_eq_ok,
        not_not] at hv
      exact hv.1
    next => cases hnew
  have hroot : ∀ h, Rooted C E H (params.genesisBlock.header.hashForHeight C E h) 0 := fun h => .root h hmem hprev
  obtain ⟨undo, L, -, rfl⟩ := new_eq_some hnew
  refine ⟨rfl, List.cons_ne_nil _ _, fun i b hb => ?_, fun hash hw hlook => ?_, fun hash b hb => ?_, ?_⟩
  · change [params.genesisBlock][i]? = some b at hb
    rw [List.getElem?_singleton] at hb
    split at hb
    next hzero =>
      cases hb
      exact ⟨hmem, hzero ▸ hroot i⟩
    next => cases hb
  · cases hlook
  · simp only [indexGenesis, lookup_insert_eq] at hb
    split at hb
    next heq =>
      cases hb
      exact ⟨hmem, ⟨0, heq⟩, 0, heq ▸ hroot 0⟩
    next => cases hb
  · intro hash h hlook hnot
    simp only [indexGenesis, lookup_insert_eq, Finmap.mem_insert, not_or] at hlook hnot
    rw [if_neg hnot.1] at hlook
    cases hlook

variable (C E H) in
/-- What can happen to the maps of a node that is given the headers of `H`. -/
inductive IndexStep : ChainState → ChainState → Prop
  | addHeader (s : ChainState) {header : BlockHeader} (hmem : header ∈ H) : IndexStep s (addHeader C E header s).2
  | processBlock {s s' : ChainState} (hcall : CallStep C E (fun _ b => b.header ∈ H) s s') : IndexStep s s'
  | pruneHeaderCache (s : ChainState) : IndexStep s (pruneHeaderCache E s)
  | pruneBlockStore (s : ChainState) : IndexStep s (pruneBlockStore C E s)

theorem Grounded.step (hs : Grounded C E H s) (hstep : IndexStep C E H s s') : Grounded C E H s' := by
  cases hstep with
  | addHeader hmem => exact hs.addHeader hmem
  | processBlock hcall =>
    refine calls_keep (fun s pool hs => ?_) (fun _ hs => hs.prune) (fun A b s hmem hparent _ hs => ?_) (.single hcall) hs
    · exact ⟨hs.height, hs.pos, hs.chain, hs.headers, hs.store, hs.pruned⟩
    · exact hs.indexAndAdopt hmem hparent
  | pruneHeaderCache => exact hs.pruneHeaders
  | pruneBlockStore => exact hs.pruneBlocks

theorem Grounded.run (hs : Grounded C E H s) (hrun : ReflTransGen (IndexStep C E H) s s') : Grounded C E H s' := by
  induction hrun with
  | refl => exact hs
  | tail _ hstep ih => exact ih.step hstep

end

section

variable {C : Crypto} {E : NodeEnv} {H : Set BlockHeader} {s : ChainState} {hash prev : Hash32} {n m : Nat}

def BlockGoes (s : ChainState) (hash prev : Hash32) : Prop := ∃ b, blockByHash s hash = some b ∧ b.header.prevHash = prev

/-- From a hash to the parent that a header or a block names which is found under it. -/
def Goes (s : ChainState) (hash prev : Hash32) : Prop :=
  (∃ hw, s.headers.lookup hash = some hw ∧ hw.header.prevHash = prev) ∨ BlockGoes s hash prev

section

variable (hfree : HashesFree C E H) (hs : Grounded C E H s)

include hfree hs

/-- What is found under a hash is stored and as deep as the hash, and its parent is less deep. -/
theorem Grounded.goes (hgo : Goes s hash prev) : ∃ d, Rooted C E H hash d ∧
    (∃ k ∈ storedHashes C E s, Rooted C E H k d) ∧ ∀ d', Rooted C E H prev d' → d' < d := by
  rcases hgo with ⟨hw, hlook, rfl⟩ | ⟨b, hb, rfl⟩
  · obtain ⟨hmem, rfl, d, hr⟩ := hs.headers hash hw hlook
    have hstored := Finmap.mem_keys.mpr (Finmap.mem_of_lookup_eq_some hlook)
    exact ⟨d, hr, ⟨_, by simp [storedHashes, hstored], hr⟩, fun _ hparent => hr.parent_lt hfree hmem hparent⟩
  · obtain ⟨hmem, d, hr, h, hown, hstored⟩ := hs.blockByHash hb
    exact ⟨d, hr, ⟨_, hstored, hown⟩, fun _ hparent => hown.parent_lt hfree hmem hparent⟩

theorem Grounded.endsWithin (tip : Hash32) : EndsWithin (Goes s) ((storedHashes C E s).card + 1) tip :=
  endsWithin_card (fun _ _ _ hr hr' => hr.unique hfree hr') (fun _ _ hgo => hs.goes hfree hgo) tip

/-- The bound that the model has for the loop of `find_reorg_path` is enough for it. -/
theorem Grounded.endsWithin_indexed (tip : Hash32) :
    EndsWithin (BlockGoes s) (s.blockStore.keys.card + s.heights.keys.card + 1) tip := by
  have hcard := Finset.card_union_le s.blockStore.keys s.heights.keys
  refine EndsWithin.mono (endsWithin_card (S := s.blockStore.keys ∪ s.heights.keys)
    (fun hash _ _ (hr : Rooted C E H hash _) hr' => hr.unique hfree hr') (fun x y hgo => ?_) tip) (by omega)
  obtain ⟨d, hr, -, hlt⟩ := hs.goes hfree (.inr hgo)
  refine ⟨d, hr, ⟨x, ?_, hr⟩, hlt⟩
  obtain ⟨b, hb, -⟩ := hgo
  rw [Finset.mem_union, Finmap.mem_keys, Finmap.mem_keys]
  unfold ChainState.blockByHash at hb
  split at hb
  next c hc => exact .inl (Finmap.mem_of_lookup_eq_some hc)
  next =>
    obtain ⟨k, hk, -⟩ := Option.bind_eq_some_iff.mp hb
    exact .inr (Finmap.mem_of_lookup_eq_some hk)

end

theorem walkBack_succ (branch : List Block) : walkBack C E s (n + 1) hash branch =
    match isHashOnMainChain C E s hash, blockByHash s hash with
    | some h, _ => .ok (h, branch)
    | none, none => .error "missing block for reorg path"
    | none, some b =>
      if b.header.prevHash = ByteVec.zero 32 then .error "reorg path has no common ancestor"
      else walkBack C E s n b.header.prevHash (b :: branch) := by
  rw [walkBack]
  cases isHashOnMainChain C E s hash with
  | some h => rfl
  | none =>
    cases blockByHash s hash with
    | none => rfl
    | some b =>
      by_cases hzero : b.header.prevHash = ByteVec.zero 32
      · simp [orFail, failIf, hzero, bind, Except.bind]
      · simp [orFail, failIf, hzero, bind, Except.bind]

theorem walkBack_ends (hend : EndsWithin (BlockGoes s) n hash) (branch : List Block) :
    walkBack C E s n hash branch ≠ .error "reorg path does not end" := by
  induction n generalizing hash branch with
  | zero => exact hend.elim
  | succ n ih =>
    rw [walkBack_succ]
    split
    next => rintro ⟨⟩
    next => simp
    next b _ hb =>
      split_ifs
      · simp
      · exact ih (hend _ ⟨b, hb, rfl⟩) (b :: branch)

theorem walkBack_congr (hn : EndsWithin (BlockGoes s) n hash) (hm : EndsWithin (BlockGoes s) m hash)
    (branch : List Block) : walkBack C E s n hash branch = walkBack C E s m hash branch := by
  induction n generalizing m hash branch with
  | zero => exact hn.elim
  | succ n ih =>
    cases m with
    | zero => exact hm.elim
    | succ m =>
      rw [walkBack_succ, walkBack_succ]
      split
      next => rfl
      next => rfl
      next b _ hb =>
        have hgo : BlockGoes s hash b.header.prevHash := ⟨b, hb, rfl⟩
        rw [ih (hn _ hgo) (hm _ hgo)]

theorem headerPathToKnown_ends (hend : EndsWithin (Goes s) n hash) (path : List Hash32) :
    (headerPathToKnown C E s n hash path).isSome := by
  induction n generalizing hash path with
  | zero => exact hend.elim
  | succ n ih =>
    rw [headerPathToKnown]
    split_ifs
    · rfl
    · split
      next => rfl
      next hw hlook =>
        split_ifs
        · rfl
        · exact ih (hend _ (.inl ⟨hw, hlook, rfl⟩)) _

theorem forkAncestorLoop_ends (hend : EndsWithin (Goes s) n hash) (floor : Nat) :
    (forkAncestorLoop C E s floor n hash).isSome := by
  induction n generalizing hash with
  | zero => exact hend.elim
  | succ n ih =>
    rw [forkAncestorLoop]
    split
    next => rfl
    next h _ =>
      split_ifs
      · rfl
      · rfl
      · split
        next => rfl
        next prev hprev =>
          refine ih (hend prev ?_)
          rcases Option.or_eq_some_iff.mp hprev with hheader | ⟨-, hblock⟩
          · obtain ⟨hw, hlook, rfl⟩ := Option.map_eq_some_iff.mp hheader
            exact .inl ⟨hw, hlook, rfl⟩
          · obtain ⟨b, hlook, rfl⟩ := Option.map_eq_some_iff.mp hblock
            exact .inr ⟨b, by simp only [blockByHash, hlook], rfl⟩

theorem headerForkAncestorHeight_eq (floor guard : Nat) (hash : Hash32) :
    headerForkAncestorHeight C E s floor guard hash = (forkAncestorLoop C E s floor guard hash).join := by
  induction guard generalizing hash with
  | zero => rfl
  | succ guard ih =>
    rw [headerForkAncestorHeight, forkAncestorLoop]
    cases knownHeight s hash with
    | none => rfl
    | some h =>
      simp only [Option.bind_eq_bind, Option.bind_some]
      split_ifs
      · rfl
      · rfl
      · cases ((s.headers.lookup hash).map fun hw => hw.header.prevHash).or
          ((s.blockStore.lookup hash).map fun b => b.header.prevHash) with
        | none => rfl
        | some prev => exact ih prev

/-- A path of headers up to a tip as the code builds it. -/
inductive KnownPath (C : Crypto) (E : NodeEnv) (s : ChainState) : Hash32 → List Hash32 → Prop
  | joins {hash : Hash32} (hmain : isConnectedChainHash C E s hash) : KnownPath C E s hash []
  | above {hash : Hash32} {hw : HeaderWork} {path : List Hash32} (hlook : s.headers.lookup hash = some hw)
      (hbelow : KnownPath C E s hw.header.prevHash path) : KnownPath C E s hash (path ++ [hash])

theorem headerPathToKnown_path {path acc : List Hash32} (hloop : headerPathToKnown C E s n hash acc = some (some path)) :
    ∃ below, path = below ++ acc ∧ KnownPath C E s hash below := by
  induction n generalizing hash acc with
  | zero => cases hloop
  | succ n ih =>
    rw [headerPathToKnown] at hloop
    split_ifs at hloop with hmain
    · cases hloop
      exact ⟨[], rfl, .joins hmain⟩
    · split at hloop
      next => cases hloop
      next hw hlook =>
        split_ifs at hloop
        · cases hloop
        · obtain ⟨below, rfl, hbelow⟩ := ih hloop
          exact ⟨below ++ [hash], by simp, .above hlook hbelow⟩

/-- Stored headers that link one to the next, the first to a block of the main chain, the last one being the tip; there
are none if the tip is on the main chain itself. -/
structure LinksTo (C : Crypto) (E : NodeEnv) (s : ChainState) (tip : Hash32) (path : List Hash32) : Prop where
  stored : ∀ hash ∈ path, ∃ hw, s.headers.lookup hash = some hw ∧ hash = hw.header.hashForHeight C E hw.height
  linked : path.IsChain fun below hash => ∃ hw, s.headers.lookup hash = some hw ∧ hw.header.prevHash = below
  first : ∀ hash ∈ path.head?, ∃ hw, s.headers.lookup hash = some hw ∧
    isConnectedChainHash C E s hw.header.prevHash
  last : path.getLast? = some tip ∨ path = [] ∧ isConnectedChainHash C E s tip

theorem KnownPath.linksTo (hs : Grounded C E H s) {tip : Hash32} {path : List Hash32} (hpath : KnownPath C E s tip path) :
    LinksTo C E s tip path := by
  induction hpath with
  | joins hmain => exact ⟨by simp, .nil, by simp, .inr ⟨rfl, hmain⟩⟩
  | @above tip hw path hlook hbelow ih =>
    refine ⟨?_, ?_, ?_, .inl List.getLast?_concat⟩
    · intro hash hmem
      rcases List.mem_append.mp hmem with hmem | hmem
      · exact ih.stored hash hmem
      · obtain rfl := List.mem_singleton.mp hmem
        exact ⟨hw, hlook, (hs.headers _ hw hlook).2.1⟩
    · refine List.isChain_append.mpr ⟨ih.linked, .singleton tip, fun below hlast hash hhead => ?_⟩
      cases hhead
      rcases ih.last with hprev | ⟨rfl, -⟩
      · exact ⟨hw, hlook, Option.some.inj (hprev.symm.trans hlast)⟩
      · cases hlast
    · intro hash hhead
      cases path with
      | nil =>
        cases hhead
        rcases ih.last with hprev | ⟨-, hmain⟩
        · cases hprev
        · exact ⟨hw, hlook, hmain⟩
      | cons first rest => exact ih.first hash hhead

end

/-- The three walks end after as many passes as hashes are stored and one more, also the one through the blocks in which a
hash that has lost its block leads to the block at its height. -/
theorem branch_walks_end {C : Crypto} {E : NodeEnv} {A : Ambient} {H : Set BlockHeader} {params : ChainParams}
    {s₀ s : ChainState} (hfree : HashesFree C E H) (hgenesis : params.genesisBlock.header ∈ H)
    (hnew : new C E A params = some s₀) (hrun : ReflTransGen (IndexStep C E H) s₀ s) (tip : Hash32) (floor : Nat) :
    (findReorgPath C E s tip = walkBack C E s ((storedHashes C E s).card + 1) tip [] ∧
      findReorgPath C E s tip ≠ .error "reorg path does not end") ∧
    (headerPathToKnown C E s ((storedHashes C E s).card + 1) tip []).isSome ∧
    (forkAncestorLoop C E s floor ((storedHashes C E s).card + 1) tip).isSome ∧
    (∀ guard, headerForkAncestorHeight C E s floor guard tip = (forkAncestorLoop C E s floor guard tip).join) ∧
    ∀ passes path, headerPathToKnown C E s passes tip [] = some (some path) → LinksTo C E s tip path := by
  have hs := (new_grounded hgenesis hnew).run hrun
  have hend := hs.endsWithin hfree tip
  have hblocks : EndsWithin (BlockGoes s) ((storedHashes C E s).card + 1) tip := hend.of_le fun _ _ => .inr
  have hpath : findReorgPath C E s tip = walkBack C E s ((storedHashes C E s).card + 1) tip [] :=
    walkBack_congr (hs.endsWithin_indexed hfree tip) hblocks []
  refine ⟨⟨hpath, hpath ▸ walkBack_ends hblocks []⟩, headerPathToKnown_ends hend [], forkAncestorLoop_ends hend floor,
    fun guard => headerForkAncestorHeight_eq floor guard tip, fun passes path hloop => ?_⟩
  obtain ⟨below, hbelow, hknown⟩ := headerPathToKnown_path hloop
  rw [List.append_nil] at hbelow
  exact hbelow ▸ hknown.linksTo hs

section

variable {C : Crypto} {E : NodeEnv}

theorem hashForHeight_eq (header : BlockHeader) (h : Nat) : ∃ k ∈ [0, E.standardHeaderActivationHeight],
    header.serializeForHeight E h = header.serializeForHeight E k ∧
      header.hashForHeight C E h = header.hashForHeight C E k := by
  by_cases hlow : h < E.standardHeaderActivationHeight
  · have hser : header.serializeForHeight E h = header.serializeForHeight E 0 := by
      simp only [BlockHeader.serializeForHeight, if_pos hlow, if_pos (Nat.zero_lt_of_lt hlow)]
    exact ⟨0, by simp, hser, by rw [BlockHeader.hashForHeight, hser, ← BlockHeader.hashForHeight]⟩
  · have hser : header.serializeForHeight E h = header.serializeForHeight E E.standardHeaderActivationHeight := by
      simp only [BlockHeader.serializeForHeight, if_neg hlow, lt_irrefl, if_false]
    exact ⟨_, by simp, hser, by rw [BlockHeader.hashForHeight, hser, ← BlockHeader.hashForHeight]⟩

theorem hashesFree_of_check {headers : List BlockHeader}
    (hinj : ∀ header ∈ headers, ∀ header' ∈ headers, ∀ k ∈ [0, E.standardHeaderActivationHeight],
      ∀ k' ∈ [0, E.standardHeaderActivationHeight], header.hashForHeight C E k = header'.hashForHeight C E k' →
        header.serializeForHeight E k = header'.serializeForHeight E k')
    (hzero : ∀ header ∈ headers, ∀ k ∈ [0, E.standardHeaderActivationHeight],
      header.hashForHeight C E k ≠ ByteVec.zero 32) : HashesFree C E {header | header ∈ headers} := by
  refine ⟨fun header hmem header' hmem' h h' heq => ?_, fun header hmem h heq => ?_⟩
  · obtain ⟨k, hk, hser, hhash⟩ := hashForHeight_eq (C := C) (E := E) header h
    obtain ⟨k', hk', hser', hhash'⟩ := hashForHeight_eq (C := C) (E := E) header' h'
    rw [hser, hser']
    exact hinj header hmem header' hmem' k hk k' hk' (by rw [← hhash, heq, hhash'])
  · obtain ⟨k, hk, -, hhash⟩ := hashForHeight_eq (C := C) (E := E) header h
    exact hzero header hmem k hk (hhash ▸ heq)

end

/-- It keeps the blocks of one height. -/
def prunedNode : NodeEnv :=
  { devnetNode with number := fun v => if v = .blockStoreWindow then some 1 else devnetNode.number v }

def branchHeaders : List BlockHeader :=
  [lockedGenesis, lowBlock, firstChild, rivalChild, rivalGrandchild].map Block.header

def rivalTip : Hash32 := rivalGrandchild.header.hashForHeight shaCrypto prunedNode 3

theorem branch_walks_end_pruned :
    ∃ s₀ s path, new shaCrypto prunedNode quietAmbient devnetParams = some s₀ ∧
      ReflTransGen (IndexStep shaCrypto prunedNode {header | header ∈ branchHeaders}) s₀ s ∧
      s.chain = [lockedGenesis, lowBlock, firstChild] ∧ lowHash ∉ s.blockStore ∧ path.length = 2 ∧
      headerPathToKnown shaCrypto prunedNode s 5 rivalTip [] = some (some path) ∧
      LinksTo shaCrypto prunedNode s rivalTip path ∧
      ∀ tip, findReorgPath shaCrypto prunedNode s tip ≠ .error "reorg path does not end" := by
  obtain ⟨s₀, hnew, hcalls, hchain, hpruned, hpath⟩ := exists_of_any (new shaCrypto prunedNode quietAmbient devnetParams)
    (fun s₀ =>
      let s₁ := (processBlock shaCrypto prunedNode quietAmbient 2 lowBlock s₀).2
      let s₂ := (processBlock shaCrypto prunedNode quietAmbient 2 firstChild s₁).2
      let s₃ := (addHeader shaCrypto prunedNode rivalChild.header s₂).2
      let s := (addHeader shaCrypto prunedNode rivalGrandchild.header s₃).2
      (∀ call ∈ processCalls shaCrypto prunedNode quietAmbient 2 lowBlock s₀ ++
          processCalls shaCrypto prunedNode quietAmbient 2 firstChild s₁, call.2.header ∈ branchHeaders) ∧
        s.chain = [lockedGenesis, lowBlock, firstChild] ∧ lowHash ∉ s.blockStore ∧
        (headerPathToKnown shaCrypto prunedNode s 5 rivalTip []).join.map List.length = some 2) (by decide +kernel)
  obtain ⟨hlow, hfirst⟩ := List.forall_mem_append.mp hcalls
  obtain ⟨path, hjoin, hlen⟩ := Option.map_eq_some_iff.mp hpath
  have hloop := Option.join_eq_some_iff.mp hjoin
  have hrun : ReflTransGen (IndexStep shaCrypto prunedNode {header | header ∈ branchHeaders}) s₀ _ :=
    .tail (.tail (.tail (.single (.processBlock ⟨quietAmbient, 2, lowBlock, hlow, rfl⟩))
      (.processBlock ⟨quietAmbient, 2, firstChild, hfirst, rfl⟩))
        (.addHeader _ (show rivalChild.header ∈ branchHeaders by decide)))
      (.addHeader _ (show rivalGrandchild.header ∈ branchHeaders by decide))
  have hfree : HashesFree shaCrypto prunedNode {header | header ∈ branchHeaders} :=
    hashesFree_of_check (by decide +kernel) (by decide +kernel)
  have hwalks := branch_walks_end hfree (by decide) hnew hrun
  exact ⟨s₀, _, path, hnew, hrun, hchain, hpruned, hlen, hloop, (hwalks _ 0).2.2.2.2 5 path hloop, fun tip =>
    (hwalks tip 0).1.2⟩

end ChainState

end IriumConsensus
