import IriumConsensus.Connect

namespace IriumConsensus

open FinMaps

variable {C : Crypto} {E : NodeEnv}

variable {key : PubKey33} {taken : List PubKey33} {chain : List Block} {h : Nat} {g : ProposerEligibilityRegistry}

namespace ProposerEligibilityRegistry

variable {g g' : ProposerEligibilityRegistry}

def heightsOf (g : ProposerEligibilityRegistry) (key : PubKey33) : Finset Nat :=
  ((g.keys.lookup key).map ProposerKeyRecord.heights).getD ∅

def Nonvoid (g : ProposerEligibilityRegistry) : Prop :=
  ∀ key rec, g.keys.lookup key = some rec → rec.heights ≠ ∅

theorem heightsOf_register (key k : PubKey33) (pkh : Pkh) (height : Nat) :
    (g.register key pkh height).heightsOf k = if k = key then insert height (g.heightsOf k) else g.heightsOf k := by
  unfold register heightsOf
  simp only [lookup_insert_eq]
  split
  next hk =>
    subst hk
    cases g.keys.lookup k <;> rfl
  next => rfl

theorem Nonvoid.register (hg : Nonvoid g) (key : PubKey33) (pkh : Pkh) (height : Nat) :
    Nonvoid (g.register key pkh height) := by
  intro k rec hk
  unfold ProposerEligibilityRegistry.register at hk
  simp only [lookup_insert_eq] at hk
  split at hk
  next =>
    cases Option.some.inj hk
    exact Finset.insert_ne_empty _ _
  next => exact hg k rec hk

theorem heightsOf_unregister (key k : PubKey33) (height : Nat) :
    (g.unregister key height).heightsOf k = if k = key then (g.heightsOf k).erase height else g.heightsOf k := by
  unfold unregister
  split
  next rec hrec =>
    unfold heightsOf
    split_ifs with hempty hk hk
    · subst hk
      simp [hrec, hempty]
    · simp [hk]
    · subst hk
      simp [hrec]
    · simp [hk]
  next hnone =>
    split
    next hk =>
      subst hk
      simp [heightsOf, hnone]
    next => rfl

theorem Nonvoid.unregister (hg : Nonvoid g) (key : PubKey33) (height : Nat) :
    Nonvoid (g.unregister key height) := by
  unfold ProposerEligibilityRegistry.unregister
  split
  next rec hrec =>
    split_ifs with hempty
    · intro k r hk
      simp only [lookup_erase_eq] at hk
      split at hk
      next => simp at hk
      next => exact hg k r hk
    · intro k r hk
      simp only [lookup_insert_eq] at hk
      split at hk
      next =>
        cases Option.some.inj hk
        exact hempty
      next => exact hg k r hk
  next => exact hg

def registerAll (g : ProposerEligibilityRegistry) (keys : List (PubKey33 × Pkh)) (height : Nat) :
    ProposerEligibilityRegistry :=
  keys.foldl (fun g k => g.register k.1 k.2 height) g

def unregisterAll (g : ProposerEligibilityRegistry) (keys : List PubKey33) (height : Nat) :
    ProposerEligibilityRegistry :=
  keys.foldl (fun g k => g.unregister k height) g

theorem heightsOf_registerAll (keys : List (PubKey33 × Pkh)) (height : Nat) (k : PubKey33) :
    (g.registerAll keys height).heightsOf k =
      if k ∈ keys.map Prod.fst then insert height (g.heightsOf k) else g.heightsOf k := by
  induction keys generalizing g with
  | nil => rfl
  | cons key keys ih =>
    rw [registerAll, List.foldl_cons, ← registerAll, ih, heightsOf_register, List.map_cons]
    by_cases hk : k = key.1 <;> by_cases hks : k ∈ keys.map Prod.fst <;> simp [hk, hks]

theorem heightsOf_unregisterAll (keys : List PubKey33) (height : Nat) (k : PubKey33) :
    (g.unregisterAll keys height).heightsOf k =
      if k ∈ keys then (g.heightsOf k).erase height else g.heightsOf k := by
  induction keys generalizing g with
  | nil => rfl
  | cons key keys ih =>
    rw [unregisterAll, List.foldl_cons, ← unregisterAll, ih, heightsOf_unregister]
    by_cases hk : k = key <;> by_cases hks : k ∈ keys <;> simp [hk, hks]

theorem Nonvoid.registerAll (hg : Nonvoid g) (keys : List (PubKey33 × Pkh)) (height : Nat) :
    Nonvoid (g.registerAll keys height) := by
  induction keys generalizing g with
  | nil => exact hg
  | cons key keys ih => exact ih (hg.register key.1 key.2 height)

theorem Nonvoid.unregisterAll (hg : Nonvoid g) (keys : List PubKey33) (height : Nat) :
    Nonvoid (g.unregisterAll keys height) := by
  induction keys generalizing g with
  | nil => exact hg
  | cons key keys ih => exact ih (hg.unregister key height)

theorem isRegistered_iff (hg : Nonvoid g) (key : PubKey33) : g.isRegistered key ↔ g.heightsOf key ≠ ∅ := by
  unfold isRegistered heightsOf
  cases hl : g.keys.lookup key with
  | none => simp
  | some rec => simpa using hg key rec hl

theorem isEligibleWith_iff (key : PubKey33) (targetHeight fd ew : Nat) :
    g.isEligibleWith key targetHeight fd ew ↔
      ∃ w, frozenWindowWith fd ew targetHeight = some w ∧ ∃ h ∈ g.heightsOf key, w.1 ≤ h ∧ h ≤ w.2 := by
  unfold isEligibleWith heightsOf
  cases frozenWindowWith fd ew targetHeight with
  | none => simp
  | some w => cases g.keys.lookup key <;> simp [recordInWindow]

theorem mem_keys_of_isEligibleWith (targetHeight fd ew : Nat)
    (h : g.isEligibleWith key targetHeight fd ew) : key ∈ g.keys.keys := by
  obtain ⟨-, -, height, hheight, -⟩ := (isEligibleWith_iff key targetHeight fd ew).mp h
  rw [Finmap.mem_keys, Finmap.mem_iff]
  cases hl : g.keys.lookup key with
  | none => simp [heightsOf, hl] at hheight
  | some rec => exact ⟨rec, rfl⟩

theorem eligibleCountWith_eq_card (targetHeight fd ew : Nat) :
    (g.keys.keys.filter fun key => g.isEligibleWith key targetHeight fd ew).card =
      g.eligibleCountWith targetHeight fd ew := by
  unfold eligibleCountWith isEligibleWith
  cases frozenWindowWith fd ew targetHeight with
  | none => simp
  | some w => exact (total_indicator (fun rec => recordInWindow rec w) g.keys).symm

theorem isEligible_iff (key : PubKey33) (targetHeight : Nat) :
    g.isEligible E key targetHeight ↔
      ∃ w, frozenWindow E targetHeight = some w ∧ ∃ h ∈ g.heightsOf key, w.1 ≤ h ∧ h ≤ w.2 :=
  isEligibleWith_iff key targetHeight (proposerFreezeDepth E) (proposerExpiryWindow E)

def eligibleKeys (E : NodeEnv) (g : ProposerEligibilityRegistry) (targetHeight : Nat) : Finset PubKey33 :=
  g.keys.keys.filter fun key => g.isEligible E key targetHeight

theorem mem_eligibleKeys {targetHeight : Nat} :
    key ∈ g.eligibleKeys E targetHeight ↔ g.isEligible E key targetHeight := by
  rw [eligibleKeys, Finset.mem_filter, and_iff_right_iff_imp]
  exact mem_keys_of_isEligibleWith targetHeight (proposerFreezeDepth E) (proposerExpiryWindow E)

theorem eligibleKeys_card (targetHeight : Nat) :
    (g.eligibleKeys E targetHeight).card = g.eligibleCount E targetHeight :=
  eligibleCountWith_eq_card targetHeight (proposerFreezeDepth E) (proposerExpiryWindow E)

/-- Registries that know the same heights treat every vote alike. -/
structure Same (g g' : ProposerEligibilityRegistry) : Prop where
  heights : ∀ key, g.heightsOf key = g'.heightsOf key
  left : Nonvoid g
  right : Nonvoid g'

theorem Same.isRegistered (h : Same g g') (key : PubKey33) : g.isRegistered key = g'.isRegistered key := by
  rw [Bool.eq_iff_iff, isRegistered_iff h.left, isRegistered_iff h.right, h.heights]

theorem Same.eligibleCount (h : Same g g') (targetHeight : Nat) :
    g.eligibleCount E targetHeight = g'.eligibleCount E targetHeight := by
  rw [← eligibleKeys_card, ← eligibleKeys_card]
  congr 1
  ext key
  rw [mem_eligibleKeys, mem_eligibleKeys, isEligible_iff, isEligible_iff, h.heights]

theorem Same.registerAll (h : Same g g') (keys : List (PubKey33 × Pkh)) (height : Nat) :
    Same (g.registerAll keys height) (g'.registerAll keys height) := by
  refine ⟨fun key => ?_, h.left.registerAll _ _, h.right.registerAll _ _⟩
  rw [heightsOf_registerAll, heightsOf_registerAll, h.heights]

theorem Same.unregisterAll {keys : List (PubKey33 × Pkh)} {height : Nat} (h : Same g (g'.registerAll keys height))
    (hg' : Nonvoid g') (hnew : ∀ key, height ∉ g'.heightsOf key)
    (htaken : ∀ k, k ∈ taken ↔ k ∈ keys.map Prod.fst) : Same (g.unregisterAll taken height) g' := by
  refine ⟨fun key => ?_, h.left.unregisterAll _ _, hg'⟩
  rw [heightsOf_unregisterAll, h.heights, heightsOf_registerAll]
  by_cases hk : key ∈ keys.map Prod.fst
  · rw [if_pos ((htaken key).mpr hk), if_pos hk, Finset.erase_insert (hnew key)]
  · rw [if_neg (fun hmem => hk ((htaken key).mp hmem)), if_neg hk]

end ProposerEligibilityRegistry

open ProposerEligibilityRegistry

def blockActivations (b : Block) : List ProposerRegistrationV1 :=
  ((proposerRegSectionFromBlock b).map ProposerRegistrationSection.activations).getD []

def registeredKeys (C : Crypto) (E : NodeEnv) (b : Block) (height : Nat) : List (PubKey33 × Pkh) :=
  (if proposerVrfActive E height then proposerKeysFromBlock b (proposerRegistrationActive E height) else []) ++
    (if proposerRegistrationActive E height then (blockActivations b).map fun r => (r.vrfPubkey, r.pkh C) else [])

/-- The registry after a chain, which is given with its newest block first; genesis registers nothing. -/
def replayRegistry (C : Crypto) (E : NodeEnv) : List Block → ProposerEligibilityRegistry
  | [] => {}
  | b :: below =>
    if below = [] then {}
    else (replayRegistry C E below).registerAll (registeredKeys C E b below.length) below.length

theorem replayRegistry_nonvoid (chain : List Block) : Nonvoid (replayRegistry C E chain) := by
  have hempty : Nonvoid {} := by
    intro key rec h
    simp at h
  induction chain with
  | nil => exact hempty
  | cons b below ih =>
    unfold replayRegistry
    split_ifs
    · exact hempty
    · exact ih.registerAll _ _

theorem mem_replayRegistry :
    h ∈ (replayRegistry C E chain).heightsOf key ↔
      0 < h ∧ ∃ b, chain.reverse[h]? = some b ∧ key ∈ (registeredKeys C E b h).map Prod.fst := by
  induction chain with
  | nil => simp [replayRegistry, heightsOf]
  | cons b below ih =>
    rw [replayRegistry, List.reverse_cons]
    split_ifs with hbelow
    · subst hbelow
      simp only [heightsOf, Finmap.lookup_empty, Option.map_none, Option.getD_none, Finset.notMem_empty, false_iff]
      rintro ⟨hpos, c, hc, -⟩
      rw [List.reverse_nil, List.nil_append, List.getElem?_eq_none (by simpa [Nat.one_le_iff_ne_zero] using hpos.ne')] at hc
      simp at hc
    · have hpos := List.length_pos_iff.mpr hbelow
      rcases lt_trichotomy h below.length with hlt | rfl | hgt
      · rw [List.getElem?_append_left (by simpa using hlt), ← ih, heightsOf_registerAll]
        split
        next => simp [hlt.ne]
        next => rfl
      · have hfresh : below.length ∉ (replayRegistry C E below).heightsOf key := by
          rw [ih]
          simp
        rw [heightsOf_registerAll]
        split
        next hkey => simpa [hpos] using hkey
        next hkey => simpa [hpos, hfresh] using hkey
      · rw [heightsOf_registerAll, List.getElem?_eq_none (by simp; omega)]
        have hfresh : h ∉ (replayRegistry C E below).heightsOf key := by
          rw [ih, List.getElem?_eq_none (by simpa using hgt.le)]
          simp
        split <;> simp [hfresh, hgt.ne']

theorem replayRegistry_heights_lt (hh : h ∈ (replayRegistry C E chain).heightsOf key) :
    h < chain.length := by
  obtain ⟨-, b, hb, -⟩ := mem_replayRegistry.mp hh
  simpa using (List.getElem?_eq_some_iff.mp hb).1

theorem ProposerEligibilityRegistry.Same.push (h : Same g (replayRegistry C E chain)) (hne : chain ≠ []) (b : Block) :
    Same (g.registerAll (registeredKeys C E b chain.length) chain.length) (replayRegistry C E (b :: chain)) := by
  rw [replayRegistry, if_neg hne]
  exact h.registerAll _ _

theorem ProposerEligibilityRegistry.Same.pop {b : Block} {below : List Block}
    (h : Same g (replayRegistry C E (b :: below))) (hne : below ≠ [])
    (htaken : ∀ k, k ∈ taken ↔ k ∈ (registeredKeys C E b below.length).map Prod.fst) :
    Same (g.unregisterAll taken below.length) (replayRegistry C E below) := by
  rw [replayRegistry, if_neg hne] at h
  refine h.unregisterAll (replayRegistry_nonvoid _) (fun key hmem => ?_) htaken
  exact absurd (replayRegistry_heights_lt hmem) (lt_irrefl _)

namespace PoawxState

variable (s : PoawxState) (b : Block) (height : Nat)

theorem applyBlockProposerRegistry_registry :
    (applyBlockProposerRegistry E s b height).proposerRegistry = s.proposerRegistry.registerAll
      (if proposerVrfActive E height then proposerKeysFromBlock b (proposerRegistrationActive E height) else [])
      height := by
  unfold applyBlockProposerRegistry
  cases proposerVrfActive E height <;> rfl

theorem applyBlockProposerRegistrations_registry :
    (applyBlockProposerRegistrations C E s b height).proposerRegistry = s.proposerRegistry.registerAll
      (if proposerRegistrationActive E height then (blockActivations b).map fun r => (r.vrfPubkey, r.pkh C) else [])
      height := by
  unfold applyBlockProposerRegistrations blockActivations
  cases proposerRegistrationActive E height with
  | false => rfl
  | true => cases proposerRegSectionFromBlock b <;> simp [registerAll, List.foldl_map]

theorem applyBlock_registry :
    (applyBlock C E s b height).proposerRegistry =
      s.proposerRegistry.registerAll (registeredKeys C E b height) height := by
  rw [(applyBlock_parts C E s b height).2.2.2, applyBlockProposerRegistrations_registry,
    applyBlockProposerRegistry_registry, registeredKeys, registerAll, registerAll, registerAll, List.foldl_append]

theorem revertBlockProposerRegistry_registry :
    (revertBlockProposerRegistry E s b height).proposerRegistry = s.proposerRegistry.unregisterAll
      ((if proposerVrfActive E height then proposerKeysFromBlock b (proposerRegistrationActive E height)
        else []).map Prod.fst) height := by
  unfold revertBlockProposerRegistry
  cases proposerVrfActive E height <;> simp [unregisterAll, List.foldl_map]

theorem revertBlockProposerRegistrations_registry :
    (revertBlockProposerRegistrations E s b height).proposerRegistry = s.proposerRegistry.unregisterAll
      (if proposerRegistrationActive E height then (blockActivations b).map ProposerRegistrationV1.vrfPubkey else [])
      height := by
  unfold revertBlockProposerRegistrations blockActivations
  cases proposerRegistrationActive E height with
  | false => rfl
  | true => cases proposerRegSectionFromBlock b <;> simp [unregisterAll, List.foldl_map]

theorem revertBlock_registry :
    ∃ keys, (∀ k, k ∈ keys ↔ k ∈ (registeredKeys C E b height).map Prod.fst) ∧
      (revertBlock E s b height).proposerRegistry = s.proposerRegistry.unregisterAll keys height := by
  refine ⟨(if proposerRegistrationActive E height then (blockActivations b).map ProposerRegistrationV1.vrfPubkey
      else []) ++ (if proposerVrfActive E height then proposerKeysFromBlock b (proposerRegistrationActive E height)
      else []).map Prod.fst, ?_, ?_⟩
  · intro k
    unfold registeredKeys
    cases proposerRegistrationActive E height <;> simp [or_comm]
  · rw [(revertBlock_parts E s b height).2.2.2, revertBlockProposerRegistry_registry,
      revertBlockProposerRegistrations_registry, unregisterAll, unregisterAll, unregisterAll, List.foldl_append]

end PoawxState

end IriumConsensus
