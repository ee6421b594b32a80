import IriumConsensus.Calls
import IriumConsensus.FinalPrefix
import IriumConsensus.Nodes

namespace IriumConsensus

open ByteCodec Checks Stateful Relation

namespace ChainState

/-- The fork choice prefers the branch of `b`, and this branch leaves the main chain at the finalized
height. -/
def SwitchesAtFinalized (C : Crypto) (E : NodeEnv) (s : ChainState) (b : Block) : Prop :=
  let p := place C E s b
  0 < s.finalizedHeight ∧ forkChoice C E (addToIndex s b p) p = .ok true ∧
    (findReorgPath C E (addToIndex s b p) p.hash).map Prod.fst = .ok s.finalizedHeight

instance (C : Crypto) (E : NodeEnv) (s : ChainState) (b : Block) : Decidable (SwitchesAtFinalized C E s b) :=
  inferInstanceAs (Decidable (_ ∧ _ ∧ _))

variable {C : Crypto} {E : NodeEnv} {A : Ambient} {s s' : ChainState} {b : Block}

/-- The watermark does not fall, and the blocks up to it stay where they are. -/
structure StaysFinal (s s' : ChainState) : Prop where
  grows : s.finalizedHeight ≤ s'.finalizedHeight
  same : ∀ h ≤ s.finalizedHeight, s'.chain[h]? = s.chain[h]?

instance : IsPreorder ChainState StaysFinal where
  refl s := ⟨le_rfl, fun _ _ => rfl⟩
  trans s t u hst htu := by
    refine ⟨hst.grows.trans htu.grows, fun h hh => ?_⟩
    rw [htu.same h (hh.trans hst.grows), hst.same h hh]

theorem Kept.staysFinal {base : List Block} {n : Nat} (h : Kept base s.finalizedHeight n s')
    (hbase : base <+: s.chain) (hlt : s.finalizedHeight < base.length) : StaysFinal s s' := by
  refine ⟨h.final, fun i hi => ?_⟩
  obtain ⟨rest, hrest⟩ := hbase
  have hib : i < base.length := by omega
  rw [h.getElem? hib, ← hrest, List.getElem?_append_left hib]

theorem checkReorg_le {ancestorHeight : Nat} {u : Unit} (h : checkReorg E s ancestorHeight = .ok u) :
    s.finalizedHeight ≤ ancestorHeight := by
  simp only [checkReorg, bind_eq_ok, exists_unit, failIf_eq_ok, not_lt] at h
  exact h.2

theorem reorgToTip_staysFinal {newTip : Hash32} (hh : s.height = s.chain.length)
    (hsafe : 0 < s.finalizedHeight →
      (findReorgPath C E s newTip).map Prod.fst ≠ .ok s.finalizedHeight) :
    StaysFinal s (reorgToTip C E A newTip s).2 := by
  refine Triple.final (P := (· = s)) (F := StaysFinal s) ?_ rfl
  refine .read_bind fun t ht => ?_
  obtain rfl : s = t := ht.symm
  refine .lift_bind (fun _ hs => hs ▸ refl_of StaysFinal s) fun path hpath => ?_
  split
  next => exact .pure fun _ hs => hs ▸ refl_of StaysFinal s
  next hlow =>
    refine .lift_bind (fun _ hs => hs ▸ refl_of StaysFinal s) fun _ hcheck => ?_
    have hle := checkReorg_le hcheck
    have hlen : (s.chain.take (path.1 + 1)).length = path.1 + 1 := by
      unfold tipHeight at hlow
      rw [List.length_take]
      omega
    have hbelow : s.finalizedHeight ≤ path.1 - 1 := by
      by_contra hlt
      have heq : path.1 = s.finalizedHeight := by omega
      exact hsafe (by omega) (by rw [hpath, ← heq]; rfl)
    have hpre : s.chain.take (path.1 + 1) <+: s.chain := List.take_prefix _ _
    have hkept : Kept (s.chain.take (path.1 + 1)) s.finalizedHeight 0 s := ⟨hh, hpre, hpre.length_le, le_rfl⟩
    have hlt : s.finalizedHeight < (s.chain.take (path.1 + 1)).length := by omega
    exact (switchBranch_kept (by omega) hlen.le path.2).mono (fun _ ht => ht ▸ hkept)
      (fun _ _ h => h.staysFinal hpre hlt) fun _ h => h.staysFinal hpre hlt

theorem connectBlock_staysFinal (hh : s.height = s.chain.length)
    (hlt : s.finalizedHeight < s.chain.length) : StaysFinal s (connectBlock C E A b s).2 := by
  have hkept : Kept s.chain s.finalizedHeight 0 s := ⟨hh, List.prefix_rfl, le_rfl, le_rfl⟩
  refine Triple.final (P := Kept s.chain s.finalizedHeight 0) (F := StaysFinal s) ?_ hkept
  exact (connectBlock_kept b).mono (fun _ h => h) (fun _ _ h => h.staysFinal List.prefix_rfl hlt)
    fun _ h => h.staysFinal List.prefix_rfl hlt

theorem adoptBlock_staysFinal {p : Placement} (hh : s.height = s.chain.length)
    (hlt : s.finalizedHeight < s.chain.length)
    (hsafe : 0 < s.finalizedHeight → forkChoice C E s p = .ok true →
      (findReorgPath C E s p.hash).map Prod.fst ≠ .ok s.finalizedHeight) :
    StaysFinal s (adoptBlock C E A b p s).2 := by
  simp only [adoptBlock, read_bind]
  split
  next => exact rel_bind (connectBlock_staysFinal hh hlt) fun _ s' _ => refl_of StaysFinal s'
  next =>
    refine rel_bind (refl_of StaysFinal s) fun better t hbetter => ?_
    obtain ⟨hc, rfl⟩ := Prod.mk.inj hbetter
    cases better with
    | false => exact refl_of StaysFinal s
    | true =>
      have hreorg := reorgToTip_staysFinal (A := A) hh fun hpos => hsafe hpos hc
      exact rel_bind hreorg fun _ s' _ => refl_of StaysFinal s'

theorem indexAndAdopt_staysFinal (hs : Reachable C E s) (hsafe : ¬SwitchesAtFinalized C E s b) :
    StaysFinal s (indexAndAdopt C E A b (place C E s b) s).2 := by
  have hw := hs.wellFormed
  have hlt : s.finalizedHeight < s.chain.length := by
    have := hs.finalizedHeight_le
    have := List.length_pos_of_ne_nil hw.nonempty
    omega
  refine rel_bind (⟨le_rfl, fun _ _ => rfl⟩ : StaysFinal s (addToIndex s b (place C E s b))) fun _ s₁ hs₁ => ?_
  obtain rfl : addToIndex s b (place C E s b) = s₁ := (Prod.mk.inj hs₁).2
  have hadopt := adoptBlock_staysFinal (A := A) (b := b) (s := addToIndex s b (place C E s b)) hw.height hlt
    fun hpos hbetter hpath => hsafe ⟨hpos, hbetter, hpath⟩
  refine rel_bind hadopt fun result s₂ _ => ?_
  cases result with
  | ok advanced => exact refl_of StaysFinal s₂
  | error e => exact ⟨le_rfl, fun _ _ => rfl⟩

/-- As long as no call moves to a branch that leaves the main chain at the finalized height, a final
block stays on the main chain, whatever blocks arrive and in whatever order. -/
theorem final_block_stays (hs : Reachable C E s)
    (hrun : ReflTransGen (CallStep C E fun s b => ¬SwitchesAtFinalized C E s b) s s') {h : Nat}
    (hh : h ≤ s.finalizedHeight) (hb : blockAt s h = some b) : blockAt s' h = some b := by
  have hkeep : Reachable C E s' ∧ StaysFinal s s' := by
    refine calls_keep (P := fun t => Reachable C E t ∧ StaysFinal s t) ?_ ?_ ?_ hrun ⟨hs, refl_of StaysFinal s⟩
    · exact fun t pool ht => ⟨ht.1.step (.reindex t _ t.anchors t.reorgOrphanedBlocks), ht.2.grows, ht.2.same⟩
    · intro t ht
      obtain ⟨index, heq⟩ := pruneCaches_eq C E t
      exact ⟨ht.1.step (pruneCaches_step t), heq ▸ ⟨ht.2.grows, ht.2.same⟩⟩
    · intro A b t hsafe _ _ ht
      exact ⟨ht.1.after (indexAndAdopt_steps A b (place C E t b)),
        trans_of StaysFinal ht.2 (indexAndAdopt_staysFinal ht.1 hsafe)⟩
  rw [← hb]
  exact hkeep.2.same h hh

/-- A block on top of the finalized branch, and the two blocks of a branch that replaces it. -/
def extension : Block :=
  committeeBlock (beVec 32 0x46a77262505f2414b0150f6494737a28cf3e46810045c7dd72c9f3398b73527b) 1767583935 0

def extensionRival : Block := committeeBlock extension.header.prevHash 1767583936 0

def extensionRivalChild : Block :=
  committeeBlock (beVec 32 0x76bf913232a785f15ef2b7964ac3888f0337253c51669a3e0e94c318ecf349a1) 1767583937 1

/-- A reorganisation above the watermark leaves the final block where it is. -/
theorem final_block_survives_reorg :
    ∃ s s', Reachable committeeCrypto committeeNode s ∧
      ReflTransGen (CallStep committeeCrypto committeeNode
        fun s b => ¬SwitchesAtFinalized committeeCrypto committeeNode s b) s s' ∧
      3 ≤ s.finalizedHeight ∧ blockAt s 3 = some finalBlock ∧ blockAt s' 3 = some finalBlock ∧
      blockAt s 5 = some extension ∧ blockAt s' 5 = some extensionRival := by
  obtain ⟨s₀, hnew, hcalls, hfinal, hblock, hext, hrival⟩ :=
    exists_of_any (new committeeCrypto committeeNode quietAmbient committeeParams)
    (fun s₀ =>
      let s := afterCalls committeeCrypto committeeNode quietAmbient 2
        (finalizedBranch ++ [extension, extensionRival]) s₀
      (∀ call ∈ processCalls committeeCrypto committeeNode quietAmbient 2 extensionRivalChild s,
          ¬SwitchesAtFinalized committeeCrypto committeeNode call.1 call.2) ∧
        3 ≤ s.finalizedHeight ∧ blockAt s 3 = some finalBlock ∧ blockAt s 5 = some extension ∧
        blockAt (processBlock committeeCrypto committeeNode quietAmbient 2 extensionRivalChild s).2 5 =
          some extensionRival) (by decide +kernel)
  have hstart : Reachable committeeCrypto committeeNode s₀ :=
    ⟨quietAmbient, committeeParams, s₀, trivial, hnew, .refl⟩
  have hs := reachable_of_calls hstart (afterCalls_run (A := quietAmbient) 2
    (finalizedBranch ++ [extension, extensionRival]) s₀)
  have hrun := ReflTransGen.single (r := CallStep committeeCrypto committeeNode
    fun s b => ¬SwitchesAtFinalized committeeCrypto committeeNode s b)
    ⟨quietAmbient, 2, extensionRivalChild, hcalls, rfl⟩
  exact ⟨_, _, hs, hrun, hfinal, hblock, final_block_stays hs hrun hfinal hblock, hext, hrival⟩

def lowerBranch : List Block :=
  [committeeBlock commitVote.blockHash 1767583935 2,
    committeeBlock (beVec 32 0x6959107103c338189d391f7b9dfcfa5859991d68e4303f0a50f99b357aeac70a) 1767583936 2]

def replacingBranch : List Block :=
  [committeeBlock finalBlock.header.prevHash 1767583934 1,
    committeeBlock (beVec 32 0x0b8ed33dd28e4c759473d5ba4b3db3401818d8ab36f91941126d9434dc74d8cd) 1767583935 0,
    committeeBlock (beVec 32 0x69cdcc78a78580ee1107a25a4c0196248dcebe136b2eb2000ba616908a9dfe58) 1767583936 1,
    committeeBlock (beVec 32 0x693078ddaad01ed86562b09fadd5a72781b73ec9a7f7b8f37bfdbe12a34dbb74) 1767583937 0]

theorem final_block_replaced :
    (∀ height, forkChoiceHardeningActive committeeNode height) ∧
      ∃ s₀ s s', new committeeCrypto committeeNode quietAmbient committeeParams = some s₀ ∧
        ReflTransGen (CallStep committeeCrypto committeeNode fun _ _ => True) s₀ s ∧
        ReflTransGen (CallStep committeeCrypto committeeNode fun _ _ => True) s s' ∧
        3 ≤ s.finalizedHeight ∧ blockAt s 3 = some finalBlock ∧ blockAt s' 3 ≠ some finalBlock := by
  obtain ⟨s₀, hnew, hs⟩ := exists_of_any (new committeeCrypto committeeNode quietAmbient committeeParams)
    (fun s₀ =>
      let s := afterCalls committeeCrypto committeeNode quietAmbient 2 finalizedBranch s₀
      let s' := afterCalls committeeCrypto committeeNode quietAmbient 2 (lowerBranch ++ replacingBranch) s
      3 ≤ s.finalizedHeight ∧ blockAt s 3 = some finalBlock ∧ blockAt s' 3 ≠ some finalBlock) (by decide +kernel)
  exact ⟨fun _ => rfl, s₀, _, _, hnew, afterCalls_run 2 finalizedBranch s₀, afterCalls_run 2 _ _,
    hs⟩

end ChainState

end IriumConsensus
