import IriumConsensus.SpvHeaders

namespace IriumConsensus

open ByteCodec Checks Relation

structure NipopowProof where
  m : Nat
  k : Nat
  pi : List BlockHeader
  chi : List BlockHeader

section

variable (C : Crypto)

/-- The loop of `header_level`: how often the target can be halved with the hash still within it. -/
def levelSteps (hash cur : Nat) : Nat :=
  if cur ≠ 0 ∧ hash ≤ cur then levelSteps hash (cur / 2) + 1 else 0
  termination_by cur
  decreasing_by omega

def headerLevel (header : BlockHeader) : Nat :=
  let target := header.target.toTarget
  let hash := beNat (header.hash C).bytes
  if target < hash then 0 else levelSteps hash target - 1

def runningCounts : List Nat → List Nat
  | [] => []
  | n :: above => (n + (runningCounts above).headD 0) :: runningCounts above

def nipopowCounts (levels : List Nat) : List Nat :=
  let max := levels.max?.getD 0
  runningCounts (levels.foldl (fun counts level => counts.modify level (· + 1)) (List.replicate (max + 1) 0))

def nipopowCompareCounts (a b : List Nat) (m : Nat) : Ordering :=
  let max := max a.length b.length - 1
  match (List.range (max + 1)).reverse.find? fun mu =>
      (m ≤ a.getD mu 0 ∨ m ≤ b.getD mu 0) ∧ a.getD mu 0 ≠ b.getD mu 0 with
  | some mu => compare (a.getD mu 0) (b.getD mu 0)
  | none => .eq

def verifyPi (idx : Nat) (seen : List Hash32) : List BlockHeader → Except String Unit
  | [] => pure ()
  | header :: rest => do
    failIf (meetsTarget (header.hash C) header.target = false) s!"pi header {idx} fails PoW"
    failIf (idx = 0 ∧ header.prevHash ≠ ByteVec.zero 32) "pi must start at genesis"
    failIf (header.hash C ∈ seen) "duplicate header in pi"
    verifyPi (idx + 1) (header.hash C :: seen) rest

/-- `prev` is the header before in `chi`, and for the first one the last of `pi`. -/
def verifyChi (idx : Nat) (prev : Option BlockHeader) : List BlockHeader → Except String Unit
  | [] => pure ()
  | header :: rest => do
    failIf (meetsTarget (header.hash C) header.target = false) s!"chi header {idx} fails PoW"
    failIf (header.prevHash ≠ prev.elim (ByteVec.zero 32) (·.hash C))
      (if idx ≠ 0 then s!"chi header {idx} does not link to previous"
        else if prev = none then "chi must start at genesis when pi is empty" else "chi does not connect to pi")
    verifyChi (idx + 1) (some header) rest

def nipopowVerify (proof : NipopowProof) : Except String Unit := do
  failIf (proof.chi = []) "chi is empty"
  failIf (proof.m = 0 ∨ proof.k = 0) "invalid proof parameters"
  verifyPi C 0 [] proof.pi
  verifyChi C 0 proof.pi.getLast? proof.chi

def proofChainFrom (seen : List Hash32) : List BlockHeader → List BlockHeader
  | [] => []
  | header :: rest =>
    if header.hash C ∈ seen then proofChainFrom seen rest
    else header :: proofChainFrom (header.hash C :: seen) rest

def nipopowProofChain (proof : NipopowProof) : List BlockHeader := proofChainFrom C [] (proof.pi ++ proof.chi)

def nipopowProofCounts (proof : NipopowProof) : List Nat :=
  nipopowCounts ((nipopowProofChain C proof).map (headerLevel C))

def nipopowCompareProofs (a b : NipopowProof) (m : Nat) : Ordering :=
  nipopowCompareCounts (nipopowProofCounts C a) (nipopowProofCounts C b) m

variable (H : Set BlockHeader)

/-- Among the headers of `H` no two have one hash, and none has the hash that stands for no parent. -/
structure CollisionFree : Prop where
  injOn : Set.InjOn (·.hash C) H
  ne_zero : ∀ header ∈ H, header.hash C ≠ ByteVec.zero 32

def LinkedIn (parent header : BlockHeader) : Prop := header ∈ H ∧ header.prevHash = parent.hash C

/-- A chain of headers of `H` down to its genesis. -/
structure RealChain (chain : List BlockHeader) : Prop where
  mem : ∀ header ∈ chain, header ∈ H
  linked : chain.IsChain (LinkedIn C H)
  genesis : ∀ header ∈ chain.head?, header.prevHash = ByteVec.zero 32

end

variable {C : Crypto} {H : Set BlockHeader} {proof : NipopowProof} {chain : List BlockHeader}

theorem sum_drop_modify (v : List Nat) {level : Nat} (mu : Nat) (h : level < v.length) :
    ((v.modify level (· + 1)).drop mu).sum = (v.drop mu).sum + if mu ≤ level then 1 else 0 := by
  induction v generalizing level mu with
  | nil => simp at h
  | cons x v ih =>
    cases mu <;> cases level
    case zero.zero =>
      rw [List.modify_zero_cons, List.drop_zero, List.drop_zero, List.sum_cons, List.sum_cons, if_pos le_rfl]
      omega
    case zero.succ level =>
      have hv := ih 0 (Nat.lt_of_succ_lt_succ h)
      rw [List.drop_zero, List.drop_zero, if_pos (Nat.zero_le _)] at hv
      rw [List.modify_succ_cons, List.drop_zero, List.drop_zero, List.sum_cons, List.sum_cons, if_pos (Nat.zero_le _)]
      omega
    case succ.zero mu => simp
    case succ.succ mu level => simpa using ih mu (Nat.lt_of_succ_lt_succ h)

theorem sum_drop_counted (levels : List Nat) (v : List Nat) (mu : Nat) (h : ∀ level ∈ levels, level < v.length) :
    ((levels.foldl (fun counts level => counts.modify level (· + 1)) v).drop mu).sum =
      (v.drop mu).sum + levels.countP (mu ≤ ·) := by
  induction levels generalizing v with
  | nil => simp
  | cons level levels ih =>
    have hlevel := sum_drop_modify v mu (h level (by simp))
    have hrest := ih (v.modify level (· + 1)) (fun l hl => by simpa using h l (List.mem_cons_of_mem _ hl))
    rw [List.foldl_cons, hrest, hlevel, List.countP_cons]
    simp only [decide_eq_true_eq]
    omega

theorem runningCounts_getD (v : List Nat) (mu : Nat) : (runningCounts v).getD mu 0 = (v.drop mu).sum := by
  induction v generalizing mu with
  | nil => simp [runningCounts]
  | cons n above ih =>
    cases mu with
    | zero => simpa [runningCounts, List.headD_eq_head?_getD, List.head?_eq_getElem?] using ih 0
    | succ mu => simpa [runningCounts] using ih mu

theorem nipopowCounts_getD (levels : List Nat) (mu : Nat) :
    (nipopowCounts levels).getD mu 0 = levels.countP (mu ≤ ·) := by
  rw [nipopowCounts, runningCounts_getD, sum_drop_counted]
  · simp
  · intro level hlevel
    rw [List.length_replicate]
    exact Nat.lt_succ_of_le (List.le_max?_getD_of_mem hlevel)

theorem proofChainFrom_sublist (seen : List Hash32) (headers : List BlockHeader) :
    (proofChainFrom C seen headers).Sublist headers := by
  induction headers generalizing seen with
  | nil => exact .slnil
  | cons header rest ih =>
    rw [proofChainFrom]
    split
    · exact (ih seen).cons header
    · exact (ih _).cons_cons header

theorem nipopowProofCounts_le (h : (proof.pi ++ proof.chi).Sublist chain) (mu : Nat) :
    (nipopowProofCounts C proof).getD mu 0 ≤ chain.countP (mu ≤ headerLevel C ·) := by
  rw [nipopowProofCounts, nipopowCounts_getD, List.countP_map]
  exact ((proofChainFrom_sublist [] _).trans h).countP_le

theorem verifyPi_genesis {seen : List Hash32} {pi : List BlockHeader} (h : verifyPi C 0 seen pi = .ok ()) :
    ∀ header ∈ pi.head?, header.prevHash = ByteVec.zero 32 := by
  cases pi with
  | nil => simp
  | cons header rest =>
    simp only [verifyPi, bind_eq_ok, exists_unit, failIf_eq_ok, true_and, not_not] at h
    simpa using h.2.1

theorem verifyChi_linked {idx : Nat} {prev : Option BlockHeader} {chi : List BlockHeader}
    (hH : ∀ header ∈ chi, header ∈ H) (h : verifyChi C idx prev chi = .ok ()) :
    chi.IsChain (LinkedIn C H) ∧ ∀ header ∈ chi.head?, header.prevHash = prev.elim (ByteVec.zero 32) (·.hash C) := by
  induction chi generalizing idx prev with
  | nil => simp
  | cons header rest ih =>
    simp only [verifyChi, bind_eq_ok, exists_unit, failIf_eq_ok, not_not] at h
    obtain ⟨-, hlink, hrest⟩ := h
    obtain ⟨hchain, hhead⟩ := ih (fun x hx => hH x (List.mem_cons_of_mem _ hx)) hrest
    refine ⟨hchain.cons fun next hnext => ⟨?_, hhead next hnext⟩, by simpa using hlink⟩
    exact hH next (List.mem_cons_of_mem _ (List.mem_of_mem_head? hnext))

theorem isChain_transGen_of_sublist {α : Type*} {r : α → α → Prop} {l chain : List α} (hchain : chain.IsChain r)
    (hsub : l.Sublist chain) : l.IsChain (TransGen r) :=
  (hchain.imp fun _ _ => TransGen.single).sublist hsub

theorem realChain_of_linked (hmem : ∀ header ∈ chain, header ∈ H)
    (hlinked : chain.IsChain fun parent header => header.prevHash = parent.hash C)
    (hgenesis : ∀ header ∈ chain.head?, header.prevHash = ByteVec.zero 32) : RealChain C H chain := by
  refine ⟨hmem, List.isChain_iff_getElem.mpr fun i h => ⟨hmem _ (List.getElem_mem _), ?_⟩, hgenesis⟩
  exact List.isChain_iff_getElem.mp hlinked i h

theorem RealChain.getElem_ne (hfree : CollisionFree C H) (hreal : RealChain C H chain) (n i : Nat)
    (h : i + n + 1 < chain.length) : chain[i] ≠ chain[i + n + 1] := by
  have hlinked := List.isChain_iff_getElem.mp hreal.linked
  induction i with
  | zero =>
    intro heq
    have hfirst := hreal.genesis chain[0] (List.head?_eq_getElem? ▸ List.getElem?_eq_getElem (by omega))
    rw [heq, (hlinked (0 + n) h).2] at hfirst
    exact hfree.ne_zero _ (hreal.mem _ (List.getElem_mem _)) hfirst
  | succ i ih =>
    intro heq
    -- equal headers have equal parents
    have hparents : chain[i].hash C = chain[i + n + 1].hash C := by
      rw [← (hlinked i (by omega)).2, heq, ← (hlinked (i + n + 1) (by omega)).2]
      congr 2
      omega
    exact ih (by omega) (hfree.injOn (hreal.mem _ (List.getElem_mem _)) (hreal.mem _ (List.getElem_mem _)) hparents)

theorem RealChain.nodup (hfree : CollisionFree C H) (hreal : RealChain C H chain) :
    chain.Nodup := by
  refine List.pairwise_iff_getElem.mpr fun i j hi hj hij => ?_
  obtain ⟨n, rfl⟩ := Nat.exists_eq_add_of_lt hij
  exact hreal.getElem_ne hfree n i hj

/-- Among the headers of the proof alone there is no other chain than the proof itself. -/
theorem RealChain.eq_of_sublist {l : List BlockHeader} (hfree : CollisionFree C {header | header ∈ l})
    (hreal : RealChain C {header | header ∈ l} chain) (hsub : l.Sublist chain) : l = chain :=
  hsub.eq_of_length_le (List.subperm_of_subset (hreal.nodup hfree) hreal.mem).length_le

theorem nipopowVerify_realChain (hok : nipopowVerify C proof = .ok ())
    (hH : ∀ header ∈ proof.pi ++ proof.chi, header ∈ H)
    (hpi : proof.pi.IsChain fun parent header => header.prevHash = parent.hash C) :
    RealChain C H (proof.pi ++ proof.chi) := by
  simp only [nipopowVerify, bind_eq_ok, exists_unit, failIf_eq_ok] at hok
  obtain ⟨-, -, hstart, hchi⟩ := hok
  obtain ⟨hlinked, hfirst⟩ := verifyChi_linked (fun x hx => hH x (List.mem_append_right _ hx)) hchi
  have hall : (proof.pi ++ proof.chi).IsChain fun parent header => header.prevHash = parent.hash C := by
    refine hpi.append (hlinked.imp fun _ _ h => h.2) fun last hlast first hhead => ?_
    rw [hfirst first hhead, Option.mem_def.mp hlast, Option.elim_some]
  refine realChain_of_linked hH hall fun header hmem => ?_
  cases hp : proof.pi with
  | nil =>
    rw [hp, List.nil_append] at hmem
    simpa [hp] using hfirst header hmem
  | cons g rest => exact verifyPi_genesis hstart header (by simpa [hp] using hmem)

/-- Whatever other headers there are, an accepted proof is part of a chain of headers, exactly if each header of `pi`
names the one before it as its parent. -/
theorem nipopow_sound_iff (proof : NipopowProof) (hok : nipopowVerify C proof = .ok ())
    (hfree : CollisionFree C {header | header ∈ proof.pi ++ proof.chi}) :
    ((∀ H, CollisionFree C H → (∀ header ∈ proof.pi ++ proof.chi, header ∈ H) →
        ∃ chain, RealChain C H chain ∧ (proof.pi ++ proof.chi).Sublist chain) ↔
      proof.pi.IsChain fun parent header => header.prevHash = parent.hash C) ∧
    ∀ H chain, RealChain C H chain → (proof.pi ++ proof.chi).Sublist chain →
      ∀ mu, (nipopowProofCounts C proof).getD mu 0 ≤ chain.countP (mu ≤ headerLevel C ·) := by
  refine ⟨⟨fun h => ?_, fun hpi H _ hH => ?_⟩, fun H chain _ hsub mu => nipopowProofCounts_le hsub mu⟩
  · obtain ⟨chain, hreal, hsub⟩ := h _ hfree fun _ hmem => hmem
    have hlinked := hreal.linked
    rw [← hreal.eq_of_sublist hfree hsub] at hlinked
    exact hlinked.left_of_append.imp fun _ _ hlink => hlink.2
  · exact ⟨_, nipopowVerify_realChain hok hH hpi, .refl _⟩

def openHeader (parent : Hash32) (nonce : UInt32) : BlockHeader := ⟨1, parent, ByteVec.zero 32, 0, 0x22010000, nonce⟩

def openGenesis : BlockHeader := openHeader (ByteVec.zero 32) 1

def twoHeaderProof : NipopowProof := ⟨1, 1, [openGenesis], [openHeader (openGenesis.hash shaCrypto) 0]⟩

/-- Its second header names no parent at all. -/
def forgedProof : NipopowProof :=
  let foreign := openHeader (ByteVec.zero 32) 2
  ⟨1, 1, [openGenesis, foreign], [openHeader (foreign.hash shaCrypto) 0]⟩

/-- A proof with two headers in `pi`, the second a child of the first. -/
def linkedProof : NipopowProof :=
  let child := openHeader (openGenesis.hash shaCrypto) 0
  ⟨1, 1, [openGenesis, child], [openHeader (child.hash shaCrypto) 0]⟩

theorem nipopow_sound_linked :
    CollisionFree shaCrypto {header | header ∈ linkedProof.pi ++ linkedProof.chi} ∧
      ∀ H, CollisionFree shaCrypto H → (∀ header ∈ linkedProof.pi ++ linkedProof.chi, header ∈ H) →
        ∃ chain, RealChain shaCrypto H chain ∧ (linkedProof.pi ++ linkedProof.chi).Sublist chain := by
  have hinj : ∀ x ∈ linkedProof.pi ++ linkedProof.chi, ∀ y ∈ linkedProof.pi ++ linkedProof.chi,
      x.hash shaCrypto = y.hash shaCrypto → x = y := by decide +kernel
  have hzero : ∀ x ∈ linkedProof.pi ++ linkedProof.chi, x.hash shaCrypto ≠ ByteVec.zero 32 := by decide +kernel
  have hfree : CollisionFree shaCrypto {header | header ∈ linkedProof.pi ++ linkedProof.chi} :=
    ⟨fun x hx y hy => hinj x hx y hy, hzero⟩
  exact ⟨hfree, (nipopow_sound_iff linkedProof (by decide +kernel) hfree).1.mpr (List.isChain_pair.mpr rfl)⟩

theorem nipopow_forged :
    nipopowVerify shaCrypto twoHeaderProof = .ok () ∧ nipopowVerify shaCrypto forgedProof = .ok () ∧
      nipopowCompareProofs shaCrypto forgedProof twoHeaderProof 3 = .gt ∧
      ∀ H, CollisionFree shaCrypto H → ∀ chain, RealChain shaCrypto H chain →
        ¬(forgedProof.pi ++ forgedProof.chi).Sublist chain := by
  refine ⟨by decide +kernel, by decide +kernel, by decide +kernel, fun H hfree chain hreal hsub => ?_⟩
  have hpath := (isChain_transGen_of_sublist hreal.linked hsub).left_of_append
  obtain ⟨parent, hparents, hlink⟩ := TransGen.tail'_iff.mp (List.isChain_pair.mp hpath)
  have hparent : parent ∈ H := by
    cases hparents with
    | refl => exact hreal.mem _ (hsub.subset (by simp [forgedProof]))
    | tail _ hlast => exact hlast.1
  exact hfree.ne_zero parent hparent hlink.2.symm

section

theorem lt_levelSteps_iff {hash cur : Nat} (mu : Nat) :
    mu < levelSteps hash cur ↔ 0 < cur >>> mu ∧ hash ≤ cur >>> mu := by
  induction mu generalizing cur with
  | zero =>
    rw [levelSteps, Nat.shiftRight_zero]
    split
    all_goals omega
  | succ mu ih =>
    have hhalf : cur >>> (mu + 1) = (cur / 2) >>> mu := by rw [Nat.add_comm, Nat.shiftRight_add, Nat.shiftRight_one]
    have hle : cur >>> (mu + 1) ≤ cur := Nat.shiftRight_le cur (mu + 1)
    rw [levelSteps]
    split
    next h => rw [Nat.succ_lt_succ_iff, ih, hhalf]
    next h => omega

/-- A count below `m` does not count. -/
def reaching (m mu : Nat) (counts : List Nat) : Nat := if m ≤ counts.getD mu 0 then counts.getD mu 0 else 0

/-- The comparison that `nipopow_compare_counts` stands for: lexicographic, from the highest level down. -/
def compareReaching (m : Nat) : Nat → List Nat → List Nat → Ordering
  | 0 => fun _ _ => .eq
  | n + 1 => compareLex (compareOn (reaching m n)) (compareReaching m n)

instance transCmp_compareReaching (m n : Nat) : Std.TransCmp (compareReaching m n) := by
  induction n with
  | zero => exact { eq_swap := rfl, isLE_trans := fun h _ => h }
  | succ n ih => exact inferInstanceAs (Std.TransCmp (compareLex (compareOn (reaching m n)) (compareReaching m n)))

theorem compareReaching_succ (m n : Nat) (a b : List Nat) :
    compareReaching m (n + 1) a b = (compare (reaching m n a) (reaching m n b)).then (compareReaching m n a b) := rfl

variable {m mu n : Nat} {a b : List Nat}

theorem reaching_lt (h : m ≤ b.getD mu 0) (hlt : a.getD mu 0 < b.getD mu 0) :
    reaching m mu a < reaching m mu b := by
  rw [reaching, reaching, if_pos h]
  split
  all_goals omega

theorem reaching_eq (h : ¬((m ≤ a.getD mu 0 ∨ m ≤ b.getD mu 0) ∧ a.getD mu 0 ≠ b.getD mu 0)) :
    reaching m mu a = reaching m mu b := by
  rw [reaching, reaching]
  split_ifs <;> omega

theorem find_compareReaching (m n : Nat) (a b : List Nat) :
    (match (List.range n).reverse.find? fun mu =>
        (m ≤ a.getD mu 0 ∨ m ≤ b.getD mu 0) ∧ a.getD mu 0 ≠ b.getD mu 0 with
      | some mu => compare (a.getD mu 0) (b.getD mu 0)
      | none => .eq) = compareReaching m n a b := by
  induction n with
  | zero => rfl
  | succ n ih =>
    rw [List.range_succ, List.reverse_append, List.reverse_singleton, List.singleton_append, List.find?_cons,
      compareReaching_succ]
    by_cases h : (m ≤ a.getD n 0 ∨ m ≤ b.getD n 0) ∧ a.getD n 0 ≠ b.getD n 0
    · rw [decide_eq_true h]
      obtain hlt | hgt := Nat.lt_or_gt_of_ne h.2
      · rw [Nat.compare_eq_lt.mpr (reaching_lt (by omega) hlt)]
        exact Nat.compare_eq_lt.mpr hlt
      · rw [Nat.compare_eq_gt.mpr (reaching_lt (by omega) hgt)]
        exact Nat.compare_eq_gt.mpr hgt
    · rw [decide_eq_false h, reaching_eq h, Nat.compare_eq_eq.mpr rfl]
      exact ih

theorem compareReaching_of_le {k : Nat} (ha : a.length ≤ n) (hb : b.length ≤ n) (h : n ≤ k) :
    compareReaching m k a b = compareReaching m n a b := by
  induction k, h using Nat.le_induction with
  | base => rfl
  | succ k hk ih =>
    have hout : reaching m k a = reaching m k b := by
      simp [reaching, List.getElem?_eq_none (ha.trans hk), List.getElem?_eq_none (hb.trans hk)]
    rw [compareReaching_succ, hout, Nat.compare_eq_eq.mpr rfl]
    exact ih

theorem nipopowCompareCounts_eq (m : Nat) (ha : a.length ≤ n) (hb : b.length ≤ n) (hn : 0 < n) :
    nipopowCompareCounts a b m = compareReaching m n a b := by
  rw [nipopowCompareCounts, find_compareReaching]
  exact (compareReaching_of_le (by omega) (by omega) (by omega)).symm

/-- The level of a header is its highest one, a count is the number of headers of a level or above, and the comparison
of counts is a total preorder. -/
theorem superblock_levels (C : Crypto) (m : Nat) :
    (∀ header : BlockHeader, 0 < header.target.toTarget → beNat (header.hash C).bytes ≤ header.target.toTarget →
      IsGreatest {mu | 0 < header.target.toTarget >>> mu ∧
        beNat (header.hash C).bytes ≤ header.target.toTarget >>> mu} (headerLevel C header)) ∧
    (∀ levels mu, (nipopowCounts levels).getD mu 0 = levels.countP (mu ≤ ·)) ∧
    (∀ a b, nipopowCompareCounts b a m = (nipopowCompareCounts a b m).swap) ∧
    ∀ a b c, (nipopowCompareCounts a b m).isLE → (nipopowCompareCounts b c m).isLE →
      (nipopowCompareCounts a c m).isLE := by
  refine ⟨fun header hpos hle => ?_, nipopowCounts_getD, fun a b => ?_, fun a b c hab hbc => ?_⟩
  · rw [headerLevel, if_neg (Nat.not_lt.mpr hle)]
    have hzero := (lt_levelSteps_iff 0).mpr ⟨hpos, hle⟩
    refine ⟨(lt_levelSteps_iff _).mp (Nat.sub_lt hzero Nat.one_pos), fun mu hmu => ?_⟩
    exact Nat.le_sub_one_of_lt ((lt_levelSteps_iff mu).mpr hmu)
  · have ha : a.length ≤ max a.length b.length + 1 := by omega
    have hb : b.length ≤ max a.length b.length + 1 := by omega
    rw [nipopowCompareCounts_eq m hb ha (Nat.succ_pos _), nipopowCompareCounts_eq m ha hb (Nat.succ_pos _)]
    exact Std.OrientedCmp.eq_swap
  · have ha : a.length ≤ max a.length (max b.length c.length) + 1 := by omega
    have hb : b.length ≤ max a.length (max b.length c.length) + 1 := by omega
    have hc : c.length ≤ max a.length (max b.length c.length) + 1 := by omega
    rw [nipopowCompareCounts_eq m ha hb (Nat.succ_pos _)] at hab
    rw [nipopowCompareCounts_eq m hb hc (Nat.succ_pos _)] at hbc
    rw [nipopowCompareCounts_eq m ha hc (Nat.succ_pos _)]
    exact Std.TransCmp.isLE_trans hab hbc

theorem superblock_levels_open :
    IsGreatest {mu | 0 < openGenesis.target.toTarget >>> mu ∧
      beNat (openGenesis.hash shaCrypto).bytes ≤ openGenesis.target.toTarget >>> mu} 8 := by
  have hlevel : headerLevel shaCrypto openGenesis = 8 := by decide +kernel
  rw [← hlevel]
  exact (superblock_levels shaCrypto 1).1 openGenesis (by decide) (by decide +kernel)

end

end IriumConsensus
