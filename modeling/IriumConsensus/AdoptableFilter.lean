import IriumConsensus.IndexInvariant

namespace IriumConsensus

open ByteCodec Checks Stateful

namespace ChainState

section

variable (C : Crypto) (E : NodeEnv) (s : ChainState)

def knownHeight (hash : Hash32) : Option Nat :=
  (s.heights.lookup hash).or ((s.headers.lookup hash).map HeaderWork.height)

def headerForkAncestorHeight (floor : Nat) : Nat → Hash32 → Option Nat
  | 0, _ => none
  | guard + 1, cur => do
    let h ← knownHeight s cur
    if s.chain[h]?.any (fun b => decide (b.header.hashForHeight C E h = cur)) then some h
    else if h ≤ floor then none
    else do
      let prev ← ((s.headers.lookup cur).map fun hw => hw.header.prevHash).or
        ((s.blockStore.lookup cur).map fun b => b.header.prevHash)
      headerForkAncestorHeight floor guard prev

/-- No branch that leaves the main chain below this height is adopted. -/
def adoptableFloor : Nat := max s.finalizedHeight (s.tipHeight - maxReorgDepth E)

end

/-- The blocks above the main chain up to a tip are in the store, each with the header that is known under its hash. -/
inductive StoredBranch (C : Crypto) (E : NodeEnv) (genesis : Block) (s : ChainState) : Hash32 → Nat → List Block → Prop
  | joins {hash : Hash32} {a : Nat} (hmain : isHashOnMainChain C E s hash = some a) : StoredBranch C E genesis s hash a []
  | above {hash : Hash32} {a : Nat} {b : Block} {branch : List Block} (hoff : isHashOnMainChain C E s hash = none)
      (hne : hash ≠ genesis.header.hashForHeight C E 0) (hstored : s.blockStore.lookup hash = some b)
      (hheader : ∀ hw, s.headers.lookup hash = some hw → hw.header.prevHash = b.header.prevHash)
      (hparent : b.header.prevHash ≠ ByteVec.zero 32) (hbelow : StoredBranch C E genesis s b.header.prevHash a branch) :
      StoredBranch C E genesis s hash a (branch ++ [b])

variable {C : Crypto} {E : NodeEnv} {genesis : Block} {s : ChainState} {hash : Hash32} {a floor guard : Nat} {branch : List Block}

theorem isHashOnMainChain_some_iff : isHashOnMainChain C E s hash = some a ↔
    s.heights.lookup hash = some a ∧ ∃ b, s.chain[a]? = some b ∧ b.header.hashForHeight C E a = hash := by
  simp only [isHashOnMainChain, Option.bind_eq_bind, Option.bind_eq_some_iff]
  constructor
  · rintro ⟨h, hh, b, hb, hif⟩
    split at hif
    · next heq =>
      obtain rfl := Option.some.inj hif
      exact ⟨hh, b, hb, heq⟩
    · cases hif
  · rintro ⟨hh, b, hb, heq⟩
    exact ⟨a, hh, b, hb, if_pos heq⟩

theorem StoredBranch.height (hs : IndexSound C E genesis s) (hb : StoredBranch C E genesis s hash a branch) :
    s.heights.lookup hash = some (a + branch.length) := by
  induction hb with
  | joins hmain => exact (isHashOnMainChain_some_iff.mp hmain).1
  | above _ hne hstored _ _ _ ih =>
    obtain ⟨h, _, hh, -, -⟩ := hs.stored _ _ hstored
    obtain ⟨b, h', _, -, hown, hparent, rfl, -, -⟩ := hs.linked _ _ hh hne
    obtain rfl := hown _ hstored
    rw [ih] at hparent
    rw [hh, ← Option.some.inj hparent, List.length_append, List.length_singleton, Nat.add_assoc]

/-- The hashes of a branch lie at different heights, so the index has at least as many entries. -/
theorem StoredBranch.length_le (hs : IndexSound C E genesis s) (hb : StoredBranch C E genesis s hash a branch) :
    ∃ keys ⊆ s.heights.keys, keys.card = branch.length ∧
      ∀ k ∈ keys, ∃ h ≤ a + branch.length, s.heights.lookup k = some h := by
  induction hb with
  | joins => exact ⟨∅, by simp, rfl, by simp⟩
  | @above hash a b branch hoff hne hstored hheader hparent hbelow ih =>
    obtain ⟨keys, hsub, hcard, hlow⟩ := ih
    have hh := (StoredBranch.above hoff hne hstored hheader hparent hbelow).height hs
    rw [List.length_append, List.length_singleton] at hh ⊢
    have hnew : hash ∉ keys := fun hmem => by
      obtain ⟨h, hle, hlookup⟩ := hlow hash hmem
      obtain rfl := Option.some.inj (hlookup.symm.trans hh)
      omega
    refine ⟨insert hash keys, Finset.insert_subset ?_ hsub, by rw [Finset.card_insert_of_notMem hnew, hcard], ?_⟩
    · exact Finmap.mem_keys.mpr (Finmap.mem_iff.mpr ⟨_, hh⟩)
    · intro k hk
      rcases Finset.mem_insert.mp hk with rfl | hk
      · exact ⟨_, le_rfl, hh⟩
      · obtain ⟨h, hle, hlookup⟩ := hlow k hk
        exact ⟨h, by omega, hlookup⟩

theorem StoredBranch.walks (hb : StoredBranch C E genesis s hash a branch) {fuel : Nat} (hfuel : branch.length < fuel)
    (taken : List Block) : walkBack C E s fuel hash taken = .ok (a, branch ++ taken) := by
  induction hb generalizing fuel taken with
  | joins hmain =>
    obtain ⟨fuel, rfl⟩ := Nat.exists_eq_succ_of_ne_zero (Nat.ne_of_gt hfuel)
    simp only [walkBack, hmain, List.nil_append]
  | @above hash a b branch hoff _ hstored _ hparent _ ih =>
    obtain ⟨fuel, rfl⟩ := Nat.exists_eq_succ_of_ne_zero (Nat.ne_zero_of_lt hfuel)
    rw [List.length_append, List.length_singleton] at hfuel
    have hblock : blockByHash s hash = some b := by simp only [blockByHash, hstored]
    simp only [walkBack, hoff, hblock, bind_eq_ok, orFail_eq_ok, exists_unit, failIf_eq_ok, Option.some.injEq]
    exact ⟨b, rfl, hparent, by rw [ih (by omega), List.append_assoc]; rfl⟩

theorem StoredBranch.path (hs : IndexSound C E genesis s) (hb : StoredBranch C E genesis s hash a branch) :
    findReorgPath C E s hash = .ok (a, branch) := by
  obtain ⟨keys, hsub, hcard, -⟩ := hb.length_le hs
  have hle := Finset.card_le_card hsub
  rw [findReorgPath, hb.walks (by omega), List.append_nil]

theorem headerForkAncestorHeight_above {h : Nat} {prev : Hash32} (hh : s.heights.lookup hash = some h)
    (hoff : isHashOnMainChain C E s hash = none)
    (hprev : ((s.headers.lookup hash).map fun hw => hw.header.prevHash).or ((s.blockStore.lookup hash).map fun b => b.header.prevHash) = some prev) :
    headerForkAncestorHeight C E s floor (guard + 1) hash =
      if h ≤ floor then none else headerForkAncestorHeight C E s floor guard prev := by
  have hmain : s.chain[h]?.any (fun b => decide (b.header.hashForHeight C E h = hash)) = false := by
    rw [Option.any_eq_false]
    intro b hb
    rw [decide_eq_false_iff_not]
    intro heq
    rw [isHashOnMainChain_some_iff.mpr ⟨hh, b, hb, heq⟩] at hoff
    cases hoff
  simp only [headerForkAncestorHeight, knownHeight, hh, hprev, Option.some_or, Option.bind_eq_bind, Option.bind_some,
    hmain, Bool.false_eq_true, if_false]

theorem StoredBranch.forkAncestor (hs : IndexSound C E genesis s) (hb : StoredBranch C E genesis s hash a branch)
    (hguard : branch.length < guard) :
    headerForkAncestorHeight C E s floor guard hash = if branch = [] ∨ floor ≤ a then some a else none := by
  induction hb generalizing guard with
  | joins hmain =>
    obtain ⟨guard, rfl⟩ := Nat.exists_eq_succ_of_ne_zero (Nat.ne_of_gt hguard)
    obtain ⟨hh, b, hb, heq⟩ := isHashOnMainChain_some_iff.mp hmain
    simp [headerForkAncestorHeight, knownHeight, hh, hb, heq]
  | @above hash a b branch hoff hne hstored hheader hparent hbelow ih =>
    obtain ⟨guard, rfl⟩ := Nat.exists_eq_succ_of_ne_zero (Nat.ne_zero_of_lt hguard)
    have hh := (StoredBranch.above hoff hne hstored hheader hparent hbelow).height hs
    rw [List.length_append, List.length_singleton] at hh hguard
    have hprev : ((s.headers.lookup hash).map fun hw => hw.header.prevHash).or
        ((s.blockStore.lookup hash).map fun b => b.header.prevHash) = some b.header.prevHash := by
      cases hw : s.headers.lookup hash with
      | none => rw [hstored]; rfl
      | some hw' => rw [Option.map_some, hheader hw' hw, Option.some_or]
    rw [headerForkAncestorHeight_above hh hoff hprev, ih (by omega)]
    by_cases hfloor : floor ≤ a
    · rw [if_neg (by omega), if_pos (.inr hfloor), if_pos (.inr hfloor)]
    · simp only [hfloor, or_false, List.append_eq_nil_iff, reduceCtorEq, and_false, if_false]
      split
      · rfl
      · next hlow => exact if_neg fun hnil => hlow (by rw [hnil, List.length_nil]; omega)

theorem checkReorg_hardened (hactive : forkChoiceHardeningActive E s.tipHeight) :
    checkReorg E s a = .ok () ↔ adoptableFloor E s ≤ a := by
  simp only [checkReorg, adoptableFloor, bind_eq_ok, exists_unit, failIf_eq_ok, hactive, true_and]
  omega

/-- The header walk finds an ancestor at or above the floor exactly if the guards of a reorganization let the branch
pass, and then it is the one the reorganization goes back to. -/
theorem adoptable_iff_guards (hactive : forkChoiceHardeningActive E s.tipHeight) (hs : IndexSound C E genesis s)
    (hb : StoredBranch C E genesis s hash a branch) (hlen : branch.length < 100000) :
    findReorgPath C E s hash = .ok (a, branch) ∧
    ((∃ ancestor, headerForkAncestorHeight C E s (adoptableFloor E s) 100000 hash = some ancestor ∧
      adoptableFloor E s ≤ ancestor) ↔ checkReorg E s a = .ok ()) ∧
    (∀ ancestor, headerForkAncestorHeight C E s (adoptableFloor E s) 100000 hash = some ancestor → ancestor = a) ∧
    (∀ A e, a < s.tipHeight → checkReorg E s a = .error e → reorgToTip C E A hash s = (.error e, s)) ∧
    (s.finalizedHeight ≤ s.tipHeight → s.tipHeight ≤ a → checkReorg E s a = .ok ()) := by
  have hpath := hb.path hs
  rw [hb.forkAncestor hs hlen, checkReorg_hardened hactive]
  refine ⟨hpath, ?_, ?_, fun A e hlow hcheck => ?_, fun hfinal htip => ?_⟩
  · constructor
    · rintro ⟨ancestor, hfound, hfloor⟩
      split at hfound
      · rwa [Option.some.inj hfound]
      · cases hfound
    · exact fun hfloor => ⟨a, if_pos (.inr hfloor), hfloor⟩
  · intro ancestor hfound
    split at hfound
    · exact (Option.some.inj hfound).symm
    · cases hfound
  · rw [reorgToTip, read_bind]
    simp only [bind_apply, lift_apply, hpath, if_neg (not_le.mpr hlow), hcheck]
  · exact max_le (hfinal.trans htip) ((Nat.sub_le _ _).trans htip)

def hardenedNode : NodeEnv :=
  { devnetNode with activationHeight := fun v => if v = .forkChoiceHardening then some 0 else none }

/-- A block that meets its target only by the hash of a miner that swaps the words of the parent's hash. -/
def swappedBlock : Block := committeeBlock lockedGenesisHash 1767583931 10

def swappedHash : Hash32 := beVec 32 108872420758497183504077392542388791878869182568412105239934267217154790478973

theorem swapped_block_adoptable :
    ∃ s, forkChoiceHardeningActive hardenedNode s.tipHeight ∧ IndexSound shaCrypto hardenedNode lockedGenesis s ∧
      s.chain = [lockedGenesis, lowBlock] ∧
      findReorgPath shaCrypto hardenedNode s swappedHash = .ok (0, [swappedBlock]) ∧
      headerForkAncestorHeight shaCrypto hardenedNode s (adoptableFloor hardenedNode s) 100000 swappedHash = some 0 := by
  obtain ⟨s₀, hnew, hcalls, hactive, hchain, hoff, hne, hstored, hheader, hmain, hcheck⟩ :=
    exists_of_any (new shaCrypto hardenedNode quietAmbient (nodeParams hardenedNode none none lockedGenesis))
    (fun s₀ =>
      let s₁ := (processBlock shaCrypto hardenedNode quietAmbient 2 lowBlock s₀).2
      let s := (processBlock shaCrypto hardenedNode quietAmbient 2 swappedBlock s₁).2
      (∀ call ∈ processCalls shaCrypto hardenedNode quietAmbient 2 lowBlock s₀ ++
            processCalls shaCrypto hardenedNode quietAmbient 2 swappedBlock s₁,
          Indexable shaCrypto hardenedNode call.1 call.2) ∧
        forkChoiceHardeningActive hardenedNode s.tipHeight ∧ s.chain = [lockedGenesis, lowBlock] ∧
        isHashOnMainChain shaCrypto hardenedNode s swappedHash = none ∧
        swappedHash ≠ lockedGenesis.header.hashForHeight shaCrypto hardenedNode 0 ∧
        s.blockStore.lookup swappedHash = some swappedBlock ∧ s.headers.lookup swappedHash = none ∧
        isHashOnMainChain shaCrypto hardenedNode s swappedBlock.header.prevHash = some 0 ∧
        checkReorg hardenedNode s 0 = .ok ()) (by decide +kernel)
  rw [List.forall_mem_append] at hcalls
  have hs := (calls_consistent hnew (.tail (.tail .refl ⟨quietAmbient, 2, lowBlock, hcalls.1, rfl⟩)
    ⟨quietAmbient, 2, swappedBlock, hcalls.2, rfl⟩)).sound
  have hb := StoredBranch.above (C := shaCrypto) hoff hne hstored (by simp [hheader]) (by decide) (.joins hmain)
  obtain ⟨hpath, hguards, hancestor, -⟩ := adoptable_iff_guards hactive hs hb (by decide)
  obtain ⟨ancestor, hfound, -⟩ := hguards.mpr hcheck
  exact ⟨_, hactive, hs, hchain, hpath, hancestor ancestor hfound ▸ hfound⟩

end ChainState

end IriumConsensus
