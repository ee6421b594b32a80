import IriumConsensus.IndexInvariant

namespace IriumConsensus

open ByteCodec Checks

/-- The header bytes of the first format, whatever the height. -/
def BlockHeader.serialize (h : BlockHeader) : Bytes :=
  le32 h.version ++ h.prevHash.reverse.bytes ++ h.merkleRoot.reverse.bytes ++
    le32 h.time ++ le32 h.bits ++ le32 h.nonce

section

variable (C : Crypto)

def BlockHeader.hash (h : BlockHeader) : Hash32 := (sha256d C h.serialize).reverse

/-- The checks of one header after another, each with its index and the header before it. -/
def verifyHeadersFrom (idx : Nat) (prev : Option BlockHeader) : List BlockHeader → Except String Unit
  | [] => pure ()
  | header :: rest => do
    failIf (meetsTarget (header.hash C) header.target = false) s!"header {idx} fails PoW"
    match prev with
    | some p => failIf (header.prevHash ≠ p.hash C) s!"header {idx} does not link to previous"
    | none => pure ()
    verifyHeadersFrom (idx + 1) (some header) rest

def verifyHeaderChain (headers : List BlockHeader) : Except String Unit := do
  failIf (headers = []) "header chain is empty"
  verifyHeadersFrom C 0 none headers

/-- What a light client asks of a run of headers. -/
structure HeadersProven (headers : List BlockHeader) : Prop where
  work : ∀ header ∈ headers, meetsTarget (header.hash C) header.target
  linked : headers.IsChain fun p header => header.prevHash = p.hash C

def ServesLightClients (s : ChainState) : Prop :=
  ∀ headers, headers ≠ [] → headers <:+: s.chain.map Block.header → verifyHeaderChain C headers = .ok ()

end

variable {C : Crypto} {E : NodeEnv} {headers : List BlockHeader} {p header : BlockHeader}

theorem HeadersProven.infix {segment : List BlockHeader} (h : HeadersProven C headers) (hs : segment <:+: headers) :
    HeadersProven C segment :=
  ⟨fun header hmem => h.work header (hs.subset hmem), h.linked.infix hs⟩

theorem headersProven_cons_cons {rest : List BlockHeader} :
    HeadersProven C (p :: header :: rest) ↔
      meetsTarget (p.hash C) p.target ∧ header.prevHash = p.hash C ∧ HeadersProven C (header :: rest) := by
  constructor
  · intro h
    obtain ⟨hlink, hrest⟩ := List.isChain_cons_cons.mp h.linked
    exact ⟨h.work p (by simp), hlink, fun x hx => h.work x (List.mem_cons_of_mem p hx), hrest⟩
  · rintro ⟨hwork, hlink, hrest⟩
    refine ⟨?_, List.isChain_cons_cons.mpr ⟨hlink, hrest.linked⟩⟩
    intro x hx
    rcases List.mem_cons.mp hx with rfl | hx
    · exact hwork
    · exact hrest.work x hx

theorem headersProven_singleton :
    HeadersProven C [header] ↔ meetsTarget (header.hash C) header.target :=
  ⟨fun h => h.work header (by simp), fun h => ⟨by simpa using h, .singleton header⟩⟩

theorem verifyHeadersFrom_some {idx : Nat} (hp : meetsTarget (p.hash C) p.target) :
    verifyHeadersFrom C idx (some p) headers = .ok () ↔ HeadersProven C (p :: headers) := by
  induction headers generalizing idx p with
  | nil => exact iff_of_true rfl (headersProven_singleton.mpr hp)
  | cons header rest ih =>
    simp only [verifyHeadersFrom, bind_eq_ok, exists_unit, failIf_eq_ok, Bool.not_eq_false, not_not,
      headersProven_cons_cons]
    constructor
    · rintro ⟨hwork, hlink, hrest⟩
      exact ⟨hp, hlink, (ih hwork).mp hrest⟩
    · rintro ⟨-, hlink, hrest⟩
      have hwork := hrest.work header (by simp)
      exact ⟨hwork, hlink, (ih hwork).mpr hrest⟩

theorem verifyHeaderChain_eq_ok :
    verifyHeaderChain C headers = .ok () ↔ headers ≠ [] ∧ HeadersProven C headers := by
  cases headers with
  | nil => simp [verifyHeaderChain, bind_eq_ok, failIf_eq_ok]
  | cons header rest =>
    simp only [verifyHeaderChain, verifyHeadersFrom, bind_eq_ok, exists_unit, failIf_eq_ok, Bool.not_eq_false,
      true_and, reduceCtorEq, not_false_eq_true, ne_eq]
    constructor
    · rintro ⟨hwork, hrest⟩
      exact (verifyHeadersFrom_some hwork).mp hrest
    · intro h
      have hwork := h.work header (by simp)
      exact ⟨hwork, (verifyHeadersFrom_some hwork).mpr h⟩

theorem BlockHeader.hash_eq_hashForHeight {h : BlockHeader} {height : Nat}
    (hlow : height < E.standardHeaderActivationHeight) : h.hash C = h.hashForHeight C E height := by
  rw [hash, hashForHeight, serialize, serializeForHeight, if_pos hlow]

namespace ChainState

variable {A : Ambient} {b c : Block} {h : Nat} {s s' : ChainState} {Offered : Nat → Block → Prop}

theorem servesLightClients_iff (hne : s.chain ≠ []) :
    ServesLightClients C s ↔ HeadersProven C (s.chain.map Block.header) := by
  have hheaders : s.chain.map Block.header ≠ [] := by simpa using hne
  constructor
  · intro h
    exact (verifyHeaderChain_eq_ok.mp (h _ hheaders (List.infix_refl _))).2
  · intro h headers hne' hseg
    exact verifyHeaderChain_eq_ok.mpr ⟨hne', h.infix hseg⟩

structure HeadersChecked (C : Crypto) (E : NodeEnv) (s : ChainState) : Prop where
  work : ∀ h b, s.chain[h]? = some b → s.usesAuxpow b h ∨ nativePow C E b.header h b.header.target
  linked : ∀ h b c, s.chain[h]? = some b → s.chain[h + 1]? = some c →
    c.header.prevHash = b.header.hashForHeight C E h

theorem getElem?_concat_eq_some {α : Type*} {l : List α} {x y : α} {i : Nat} (h : (l ++ [x])[i]? = some y) :
    l[i]? = some y ∨ i = l.length ∧ y = x := by
  rw [List.getElem?_append] at h
  split at h
  next => exact .inl h
  next hi =>
    obtain ⟨hlt, rfl⟩ := List.getElem?_eq_some_iff.mp h
    rw [List.length_singleton] at hlt
    exact .inr ⟨by omega, by simp⟩

theorem HeadersChecked.of_chain (hs : HeadersChecked C E s) (hparams : s'.params = s.params)
    (hchain : ∀ (h : Nat) b, s'.chain[h]? = some b → s.chain[h]? = some b) : HeadersChecked C E s' := by
  refine ⟨fun h b hb => ?_, fun h b c hb hc => hs.linked h b c (hchain h b hb) (hchain _ c hc)⟩
  have hwork := hs.work h b (hchain h b hb)
  rwa [usesAuxpow, ← hparams] at hwork

theorem HeadersChecked.extend (hs : HeadersChecked C E s) (hw : WellFormed C E s)
    (hv : validateBlock C E A s b = .ok ()) (hparams : s'.params = s.params) (hchain : s'.chain = s.chain ++ [b]) :
    HeadersChecked C E s' := by
  have hheight := hw.height
  refine ⟨?_, ?_⟩
  · intro h x hx
    rw [hchain] at hx
    rcases getElem?_concat_eq_some hx with hx | ⟨rfl, rfl⟩
    · have hwork := hs.work h x hx
      rwa [usesAuxpow, ← hparams] at hwork
    · have hwork := checkPow_native (validateBlockHeader_pow (bind_eq_ok.mp hv).choose_spec.1)
      rwa [usesAuxpow, ← hparams, hheight] at hwork
  · intro h x y hx hy
    rw [hchain] at hx hy
    rcases getElem?_concat_eq_some hy with hy | ⟨hlast, rfl⟩
    · rcases getElem?_concat_eq_some hx with hx | ⟨rfl, -⟩
      · exact hs.linked h x y hx hy
      · obtain ⟨hlt, -⟩ := List.getElem?_eq_some_iff.mp hy
        omega
    · rcases getElem?_concat_eq_some hx with hx | ⟨rfl, -⟩
      · have hparent := validateBlock_parent hv hw.nonempty
        have htip : s.chain.getLast? = some x := by
          rw [List.getLast?_eq_getElem?, ← hlast]
          exact hx
        rw [hparent, tipHash, htip, hheight, ← hlast]
        rfl
      · omega

theorem new_headersChecked {params : ChainParams} (h : new C E A params = some s) : HeadersChecked C E s := by
  unfold new at h
  split at h
  next s₁ hok =>
    obtain ⟨-, hv, undo, L, -, rfl⟩ := connectGenesis_eq_ok.mp hok
    obtain rfl := Option.some.inj h
    have hwork := checkPow_native (validateBlockHeader_pow hv)
    refine ⟨?_, ?_⟩
    · intro h b hb
      obtain ⟨hlt, hb⟩ := List.getElem?_eq_some_iff.mp hb
      obtain rfl : h = 0 := Nat.lt_one_iff.mp hlt
      obtain rfl : params.genesisBlock = b := hb
      exact hwork
    · intro h b c _ hc
      obtain ⟨hlt, -⟩ := List.getElem?_eq_some_iff.mp hc
      exact absurd (Nat.lt_one_iff.mp hlt) (Nat.succ_ne_zero h)
  next => simp at h

theorem Effect.headersChecked (hs : HeadersChecked C E s) (hw : WellFormed C E s) (h : Effect C E Offered s s') :
    HeadersChecked C E s' := by
  cases h with
  | refused hm => exact hs.of_chain rfl fun _ _ hb => hb
  | @accepted A b undo L hb hv ha hi =>
    obtain ⟨hchain, -, -, hparams⟩ := acceptBlock_grows (C := C) (E := E) (s.setLedger L) b undo
    exact hs.extend hw hv hparams hchain
  | @popped tip undo ht =>
    refine hs.of_chain rfl fun h b hb => ?_
    rw [popBlock, List.getElem?_dropLast] at hb
    split at hb
    next => exact hb
    next => simp at hb
  | reindexed index anchors orphaned => exact hs.of_chain rfl fun _ _ hb => hb

theorem ReachableBy.headersChecked (hs : ReachableBy C E Offered s) : HeadersChecked C E s :=
  hs.invariant (fun _ _ _ _ => new_headersChecked) fun _ _ hw hs heff => heff.headersChecked hs hw

theorem HeadersChecked.work_low (hs : HeadersChecked C E s) (hb : s.chain[h]? = some b)
    (haux : s.usesAuxpow b h = false) (hlow : h < E.standardHeaderActivationHeight) :
    meetsTarget (b.header.hash C) b.header.target := by
  rw [BlockHeader.hash_eq_hashForHeight hlow]
  have hwork := hs.work h b hb
  simpa [haux, nativePow, whatsminerCompatPowHashForHeight, hlow] using hwork

/-- A block after the fork of the header format, or one that proves its work by a parent chain, is accepted by a
light client if its hash in the first format meets the target and is the one by which its child names it. -/
def SeenAlike (C : Crypto) (E : NodeEnv) (s : ChainState) (h : Nat) (b : Block) : Prop :=
  s.usesAuxpow b h ∨ E.standardHeaderActivationHeight ≤ h →
    meetsTarget (b.header.hash C) b.header.target ∧
      (h + 1 < s.chain.length → b.header.hash C = b.header.hashForHeight C E h)

instance (C : Crypto) (E : NodeEnv) (s : ChainState) (h : Nat) (b : Block) : Decidable (SeenAlike C E s h b) :=
  inferInstanceAs (Decidable (_ → _))

theorem headersProven_iff (hs : HeadersChecked C E s) :
    HeadersProven C (s.chain.map Block.header) ↔ ∀ h b, s.chain[h]? = some b → SeenAlike C E s h b := by
  constructor
  · intro hp h b hb _
    have hmem := List.mem_map_of_mem (f := Block.header) (List.mem_of_getElem? hb)
    refine ⟨hp.work _ hmem, fun hlt => ?_⟩
    obtain ⟨_, rfl⟩ := List.getElem?_eq_some_iff.mp hb
    have hlink := List.isChain_iff_getElem.mp hp.linked h (by simpa using hlt)
    rw [List.getElem_map, List.getElem_map] at hlink
    rw [← hlink]
    exact hs.linked h _ _ (List.getElem?_eq_getElem _) (List.getElem?_eq_getElem hlt)
  · intro hseen
    refine ⟨?_, List.isChain_iff_getElem.mpr ?_⟩
    · intro header hmem
      obtain ⟨b, hb, rfl⟩ := List.mem_map.mp hmem
      obtain ⟨h, hb⟩ := List.mem_iff_getElem?.mp hb
      by_cases hspecial : s.usesAuxpow b h ∨ E.standardHeaderActivationHeight ≤ h
      · exact (hseen h b hb hspecial).1
      · rw [not_or, Bool.not_eq_true, not_le] at hspecial
        exact hs.work_low hb hspecial.1 hspecial.2
    · intro h hlt
      rw [List.length_map] at hlt
      have hb : s.chain[h]? = some s.chain[h] := List.getElem?_eq_getElem _
      rw [List.getElem_map, List.getElem_map, hs.linked h _ _ hb (List.getElem?_eq_getElem hlt)]
      by_cases hlow : h < E.standardHeaderActivationHeight
      · rw [BlockHeader.hash_eq_hashForHeight hlow]
      · exact ((hseen h _ hb (.inr (not_lt.mp hlow))).2 hlt).symm

/-- Light clients accept all of a node's chain exactly if every block after the fork of the header format, and
every merged-mined one, is still linked and worked for under its hash in the first format. -/
theorem light_clients_served_iff (hs : Reachable C E s) :
    ServesLightClients C s ↔ ∀ h b, s.chain[h]? = some b → SeenAlike C E s h b :=
  (servesLightClients_iff hs.wellFormed.nonempty).trans (headersProven_iff hs.headersChecked)

/-- A block of the second header format whose hash in the first format meets its target as well. -/
def luckyBlock : Block := committeeBlock lockedGenesisHash 1767583931 2

theorem lucky_chain_served :
    ∃ s, Reachable shaCrypto devnetNode s ∧ s.chain = [lockedGenesis, luckyBlock] ∧
      devnetNode.standardHeaderActivationHeight = 1 ∧ ServesLightClients shaCrypto s := by
  obtain ⟨s, hs, hchain, hseen⟩ := exists_reachable_of_runOf (C := shaCrypto) (E := devnetNode)
    quietAmbient devnetParams [luckyBlock]
    (fun s => s.chain = [lockedGenesis, luckyBlock] ∧
      ∀ h < s.chain.length, ∀ b ∈ s.chain[h]?, SeenAlike shaCrypto devnetNode s h b) (by decide +kernel)
  refine ⟨s, hs, hchain, rfl, (light_clients_served_iff hs).mpr fun h b hb => ?_⟩
  obtain ⟨hlt, -⟩ := List.getElem?_eq_some_iff.mp hb
  exact hseen h hlt b hb

theorem light_client_rejects_new_format :
    ∃ s, Reachable shaCrypto devnetNode s ∧ s.chain = [lockedGenesis, lowBlock] ∧
      verifyHeaderChain shaCrypto (s.chain.map Block.header) = .error "header 1 fails PoW" ∧
      ¬ServesLightClients shaCrypto s := by
  obtain ⟨s, hs, hchain, hverify⟩ := exists_reachable_of_runOf (C := shaCrypto) (E := devnetNode)
    quietAmbient devnetParams [lowBlock]
    (fun s => s.chain = [lockedGenesis, lowBlock] ∧
      verifyHeaderChain shaCrypto (s.chain.map Block.header) = .error "header 1 fails PoW") (by decide +kernel)
  refine ⟨s, hs, hchain, hverify, fun h => ?_⟩
  have hok := h (s.chain.map Block.header) (by simp [hchain]) (List.infix_refl _)
  rw [hverify] at hok
  cases hok

end ChainState

end IriumConsensus
