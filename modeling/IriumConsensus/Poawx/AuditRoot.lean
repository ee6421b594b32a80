import IriumConsensus.BlockWire
import IriumConsensus.Lib.MerkleTree

namespace IriumConsensus

open ByteCodec MerkleTree

def PoawxBlockReceipt.leafInput (C : Crypto) (phase20Active : Bool) (r : PoawxBlockReceipt) : Bytes :=
  r.serialize ++ r.optionalDigests C phase20Active

def receiptLeaves (C : Crypto) (phase20Active : Bool) (receipts : List PoawxBlockReceipt) : List Hash32 :=
  receipts.map fun r => C.sha256 (r.leafInput C phase20Active)

def receiptRootInput (C : Crypto) (phase20Active : Bool) (receipts : List PoawxBlockReceipt) : Bytes :=
  (sortByKey ByteVec.toNat (receiptLeaves C phase20Active receipts)).flatMap ByteVec.bytes

variable {C : Crypto}

theorem flatMap_bytes_injective {xs ys : List Hash32} (h : xs.flatMap ByteVec.bytes = ys.flatMap ByteVec.bytes) :
    xs = ys := by
  have hlen := congrArg List.length h
  simp only [List.length_flatMap, ByteVec.length_bytes, List.map_const', List.sum_replicate_nat] at hlen
  have hlength : xs.length = ys.length := by omega
  have hdecode : ∀ zs : List Hash32, Reads (readMany (readVec 32 sliceError) zs.length) (zs.flatMap ByteVec.bytes) zs :=
    fun zs => readMany_reads fun z _ => readVec_reads _ z
  have hx := hdecode xs
  rw [hlength] at hx
  exact hx.eq_of_eq (hdecode ys) h

theorem Phase20ReceiptExt.serialize_ne_delegation (e : Phase20ReceiptExt) (d : Delegation) :
    e.serialize ≠ d.serialize := by
  intro heq
  have hlen := congrArg List.length heq
  have h1 := e.claims.compute.serialize_length.1
  have h2 := e.claims.verify.serialize_length.1
  simp only [Phase20ReceiptExt.serialize, PerRole.toList, List.flatMap_cons, List.length_append,
    PoawxRoleClaim.fixedSize, d.serialize_length, Delegation.wireSize] at hlen h1 h2
  omega

theorem delegation_eq {d d' : Delegation} (h : d.serialize = d'.serialize) : d = d' :=
  eq_of_decode d.deserialize_serialize d'.deserialize_serialize h

section

theorem serializeOption_injective {α : Type} {f : α → Bytes} (hf : ∀ a, f a ≠ []) {x y : Option α}
    (h : serializeOption f x = serializeOption f y) (hinj : ∀ a ∈ x, ∀ b ∈ y, f a = f b → a = b) : x = y := by
  cases x with
  | none =>
    cases y with
    | none => rfl
    | some b => exact absurd h.symm (hf b)
  | some a =>
    cases y with
    | none => exact absurd h (hf a)
    | some b => rw [hinj a rfl b rfl h]

variable {phase20Active : Bool} {r r' : PoawxBlockReceipt} {S : Set Bytes}

/-- What is asked of a receipt whose digests are to be told apart: its parts are hashed in `S`, and an extension is
hashed at all. -/
structure LeafBound (phase20Active : Bool) (S : Set Bytes) (r : PoawxBlockReceipt) : Prop where
  delegation : ∀ d ∈ r.delegation, d.serialize ∈ S
  ext : ∀ e ∈ r.phase20Ext, e.serialize ∈ S ∧ e.Fits ∧ phase20Active

theorem LeafBound.optionalDigests (h : LeafBound phase20Active S r) : r.optionalDigests C phase20Active =
    serializeOption (fun d => (d.digest C).bytes) r.delegation ++
      serializeOption (fun e => (e.digest C).bytes) r.phase20Ext := by
  rw [PoawxBlockReceipt.optionalDigests]
  congr 1
  cases he : r.phase20Ext with
  | none => simp [serializeOption]
  | some e => rw [(h.ext e he).2.2, if_pos rfl]

/-- A delegation is not taken for an extension, which is longer. -/
theorem LeafBound.delegated (inj : Set.InjOn C.sha256 S) (h : LeafBound phase20Active S r)
    (h' : LeafBound phase20Active S r') (heq : r.optionalDigests C phase20Active = r'.optionalDigests C phase20Active)
    (hd : r.delegation.isSome) : r'.delegation.isSome := by
  obtain ⟨d, hd⟩ := Option.isSome_iff_exists.mp hd
  by_contra hnone
  rw [Bool.not_eq_true, Option.isSome_eq_false_iff, Option.isNone_iff_eq_none] at hnone
  rw [h.optionalDigests, h'.optionalDigests, hd, hnone] at heq
  cases he' : r'.phase20Ext with
  | none =>
    have hlen := congrArg List.length heq
    simp [serializeOption, he'] at hlen
  | some e' =>
    have hdigest : (d.digest C).bytes = (e'.digest C).bytes := by
      have happend : (d.digest C).bytes ++ serializeOption (fun e => (e.digest C).bytes) r.phase20Ext =
          (e'.digest C).bytes ++ [] := by
        simpa [serializeOption, he'] using heq
      exact (List.append_inj happend (by simp)).1
    have hser := inj (h.delegation d hd) (h'.ext e' he').1 (ByteVec.ext hdigest)
    exact e'.serialize_ne_delegation d hser.symm

theorem LeafBound.injective (inj : Set.InjOn C.sha256 S) (h : LeafBound phase20Active S r)
    (h' : LeafBound phase20Active S r') (heq : r.optionalDigests C phase20Active = r'.optionalDigests C phase20Active) :
    r.delegation = r'.delegation ∧ r.phase20Ext = r'.phase20Ext := by
  have hsome : r.delegation.isSome = r'.delegation.isSome := by
    rw [Bool.eq_iff_iff]
    exact ⟨h.delegated inj h' heq, h'.delegated inj h heq.symm⟩
  have hne : ∀ v : Hash32, v.bytes ≠ [] := by
    intro v hv
    have hlen := v.length_eq
    simp [hv] at hlen
  rw [h.optionalDigests, h'.optionalDigests] at heq
  obtain ⟨hdeleg, hext⟩ := List.append_inj heq (by
    cases hd : r.delegation <;> cases hd' : r'.delegation <;> simp [hd, hd', serializeOption] at hsome ⊢)
  constructor
  · refine serializeOption_injective (fun d => hne _) hdeleg fun d hd d' hd' hdd => ?_
    exact delegation_eq (inj (h.delegation d hd) (h'.delegation d' hd') (ByteVec.ext hdd))
  · refine serializeOption_injective (fun e => hne _) hext fun e he e' he' hee => ?_
    have hser := inj (h.ext e he).1 (h'.ext e' he').1 (ByteVec.ext hee)
    exact eq_of_decode (Phase20ReceiptExt.deserialize_serialize (h.ext e he).2.1)
      (Phase20ReceiptExt.deserialize_serialize (h'.ext e' he').2.1) hser

theorem LeafBound.leafInput_injective (inj : Set.InjOn C.sha256 S) (h : LeafBound phase20Active S r)
    (h' : LeafBound phase20Active S r') (heq : r.leafInput C phase20Active = r'.leafInput C phase20Active) : r = r' := by
  obtain ⟨hbody, hdigests⟩ := List.append_inj heq (by rw [r.serialize_length, r'.serialize_length])
  obtain ⟨hd, he⟩ := h.injective inj h' hdigests
  have hplain := eq_of_decode r.deserialize_serialize r'.deserialize_serialize hbody
  cases r
  cases r'
  simp_all

end

theorem sortByKey_eq_iff {α : Type} {key : α → Nat} (hkey : Function.Injective key) {xs ys : List α} :
    sortByKey key xs = sortByKey key ys ↔ xs.Perm ys := by
  have hx : (sortByKey key xs).Perm xs := List.perm_insertionSort _ xs
  have hy : (sortByKey key ys).Perm ys := List.perm_insertionSort _ ys
  constructor
  · intro h
    exact hx.symm.trans (h ▸ hy)
  · intro h
    exact List.Perm.eq_of_pairwise (fun a b _ _ hab hba => hkey (le_antisymm hab hba))
      (List.pairwise_insertionSort _ _) (List.pairwise_insertionSort _ _) ((hx.trans h).trans hy.symm)

def receiptStrings (C : Crypto) (receipts : List PoawxBlockReceipt) : List Bytes :=
  receiptRootInput C true receipts :: receipts.map (PoawxBlockReceipt.leafInput C true) ++
    receipts.filterMap (fun r => r.delegation.map Delegation.serialize) ++
    receipts.filterMap fun r => r.phase20Ext.map Phase20ReceiptExt.serialize

variable {A B : List PoawxBlockReceipt}

theorem leafBound_of_mem {S : Set Bytes} (hS : ∀ x ∈ receiptStrings C A, x ∈ S)
    (hfits : ∀ r ∈ A, ∀ e ∈ r.phase20Ext, e.Fits) {r : PoawxBlockReceipt} (hr : r ∈ A) : LeafBound true S r := by
  refine ⟨fun d hd => hS _ ?_, fun e he => ⟨hS _ ?_, hfits r hr e he, rfl⟩⟩
  · have hmem : d.serialize ∈ A.filterMap fun r => r.delegation.map Delegation.serialize :=
      List.mem_filterMap.mpr ⟨r, hr, by rw [hd, Option.map_some]⟩
    simp [receiptStrings, hmem]
  · have hmem : e.serialize ∈ A.filterMap fun r => r.phase20Ext.map Phase20ReceiptExt.serialize :=
      List.mem_filterMap.mpr ⟨r, hr, by rw [he, Option.map_some]⟩
    simp [receiptStrings, hmem]

theorem irx1Root_audit_eq : irx1RootFromBlockReceiptsAudit C A true true = C.sha256 (receiptRootInput C true A) := rfl

/-- The audited root stands for the receipts up to their order. -/
theorem audit_root_binds_receipts
    (inj : Set.InjOn C.sha256 {x | x ∈ receiptStrings C A ∨ x ∈ receiptStrings C B})
    (hA : ∀ r ∈ A, ∀ e ∈ r.phase20Ext, e.Fits) (hB : ∀ r ∈ B, ∀ e ∈ r.phase20Ext, e.Fits) :
    irx1RootFromBlockReceiptsAudit C A true true = irx1RootFromBlockReceiptsAudit C B true true ↔ A.Perm B := by
  have hbound : ∀ r, r ∈ A ∨ r ∈ B → LeafBound true {x | x ∈ receiptStrings C A ∨ x ∈ receiptStrings C B} r := by
    rintro r (hr | hr)
    · exact leafBound_of_mem (fun x hx => .inl hx) hA hr
    · exact leafBound_of_mem (fun x hx => .inr hx) hB hr
  have hmem : ∀ r, r ∈ A ∨ r ∈ B → r.leafInput C true ∈ {x | x ∈ receiptStrings C A ∨ x ∈ receiptStrings C B} := by
    rintro r (hr | hr)
    · exact .inl (by simp [receiptStrings, List.mem_map_of_mem hr])
    · exact .inr (by simp [receiptStrings, List.mem_map_of_mem hr])
  rw [irx1Root_audit_eq, irx1Root_audit_eq]
  constructor
  · intro h
    have hinput := inj (.inl (by simp [receiptStrings])) (.inr (by simp [receiptStrings])) h
    have hleaves := (sortByKey_eq_iff ByteVec.toNat_injective).mp (flatMap_bytes_injective hinput)
    refine perm_of_map_perm (fun r hr r' hr' heq => ?_) hleaves
    exact (hbound r hr).leafInput_injective inj (hbound r' hr') (inj (hmem r hr) (hmem r' hr') heq)
  · intro h
    have hleaves : (receiptLeaves C true A).Perm (receiptLeaves C true B) := h.map _
    rw [receiptRootInput, receiptRootInput, (sortByKey_eq_iff ByteVec.toNat_injective).mpr hleaves]

namespace ChainState

theorem audit_root_binds_swapped :
    irx1RootFromBlockReceiptsAudit shaCrypto [plainReceipt, { plainReceipt with height := 1 }] true true =
      irx1RootFromBlockReceiptsAudit shaCrypto [{ plainReceipt with height := 1 }, plainReceipt] true true := by
  have hinj : ∀ x ∈ receiptStrings shaCrypto [plainReceipt, { plainReceipt with height := 1 }] ++
      receiptStrings shaCrypto [{ plainReceipt with height := 1 }, plainReceipt],
      ∀ y ∈ receiptStrings shaCrypto [plainReceipt, { plainReceipt with height := 1 }] ++
        receiptStrings shaCrypto [{ plainReceipt with height := 1 }, plainReceipt],
      shaCrypto.sha256 x = shaCrypto.sha256 y → x = y := by
    decide +kernel
  refine (audit_root_binds_receipts (fun x hx y hy => ?_) ?_ ?_).mpr (List.Perm.swap _ _ _)
  · exact hinj x (List.mem_append.mpr hx) y (List.mem_append.mpr hy)
  all_goals simp [plainReceipt]

def zeroRegistration : ProposerRegistrationV1 where
  vrfPubkey := ByteVec.zero 33
  anchorHeight := 0
  sybilNonce := ByteVec.zero 32
  sybilDigest := ByteVec.zero 32
  signature := ByteVec.zero 64

def zeroRegistrations (announces activations : Nat) : ProposerRegistrationSection :=
  ⟨List.replicate announces zeroRegistration, List.replicate activations zeroRegistration⟩

def registrationsExt (announces activations : Nat) : Phase20ReceiptExt :=
  { blankExt with proposerRegistrations := some (zeroRegistrations announces activations) }

theorem zeroRegistrations_serialize (m n : Nat) : (zeroRegistrations m n).serialize =
    leList 2 m ++ List.replicate (m * 169) 0 ++ leList 2 n ++ List.replicate (n * 169) 0 := by
  have hone : zeroRegistration.serialize = List.replicate 169 0 := by decide +kernel
  simp only [zeroRegistrations, ProposerRegistrationSection.serialize, List.length_replicate,
    List.flatMap_replicate, hone, List.flatten_replicate_replicate]

theorem zeroRegistrations_comm {n : Nat} (hn : leList 2 n = leList 2 0) :
    (zeroRegistrations n 0).serialize = (zeroRegistrations 0 n).serialize := by
  have hzero : leList 2 0 = List.replicate 2 0 := rfl
  rw [zeroRegistrations_serialize, zeroRegistrations_serialize, hn, hzero]
  simp only [List.replicate_append_replicate]
  congr 1
  omega

theorem audit_root_comm (C : Crypto) {n : Nat} (hn : leList 2 n = leList 2 0) :
    irx1RootFromBlockReceiptsAudit C [receiptWith (registrationsExt n 0)] true true =
      irx1RootFromBlockReceiptsAudit C [receiptWith (registrationsExt 0 n)] true true := by
  have hext : (registrationsExt n 0).serialize = (registrationsExt 0 n).serialize := by
    simp only [Phase20ReceiptExt.serialize, Phase20ReceiptExt.serializeSections, registrationsExt, serializeOption,
      zeroRegistrations_comm hn]
    rfl
  have hleaf : (receiptWith (registrationsExt n 0)).leafInput C true =
      (receiptWith (registrationsExt 0 n)).leafInput C true := by
    simp only [PoawxBlockReceipt.leafInput, PoawxBlockReceipt.optionalDigests, receiptWith, serializeOption,
      Phase20ReceiptExt.digest, hext]
    rfl
  rw [irx1Root_audit_eq, irx1Root_audit_eq, receiptRootInput, receiptRootInput, receiptLeaves, receiptLeaves,
    List.map_singleton, List.map_singleton, hleaf]

/-- A count of 65536 is such a one: here the root does not tell announces from activations. -/
theorem audit_root_wraps :
    ¬ [receiptWith (registrationsExt 65536 0)].Perm [receiptWith (registrationsExt 0 65536)] ∧
      ∀ C, irx1RootFromBlockReceiptsAudit C [receiptWith (registrationsExt 65536 0)] true true =
        irx1RootFromBlockReceiptsAudit C [receiptWith (registrationsExt 0 65536)] true true := by
  constructor
  · intro h
    have hext := congrArg PoawxBlockReceipt.phase20Ext (List.singleton_perm_singleton.mp h)
    have hsection := congrArg Phase20ReceiptExt.proposerRegistrations (Option.some.inj hext)
    have hlen := congrArg (fun s => s.announces.length) (Option.some.inj hsection)
    simp only [zeroRegistrations, List.length_replicate] at hlen
    exact absurd hlen (by decide)
  · intro C
    exact audit_root_comm C (by decide)

end ChainState

end IriumConsensus
