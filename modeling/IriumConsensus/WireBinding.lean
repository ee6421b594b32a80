import IriumConsensus.BlockWire

namespace IriumConsensus

open ByteCodec Checks

namespace ChainState

variable {C : Crypto} {E : NodeEnv} {A : Ambient} {s : ChainState} {b b' : Block}

theorem accepts_of_same_rules (hv : validateBlock C E A s b' = validateBlock C E A s b)
    (ha : applyTransactions C E s b' = applyTransactions C E s b) (hc : (connectBlock C E A b s).1 = .ok ()) :
    (connectBlock C E A b' s).1 = .ok () := by
  obtain ⟨hvalid, undo, L, hL, hissued, -⟩ := connectBlock_eq_ok.mp (Prod.ext hc rfl)
  rw [connectBlock_eq_ok.mpr ⟨hv.trans hvalid, undo, L, by rw [ha, hL], hissued, rfl⟩]

/-- The rules look at the list of the receipts and not at whether there is a section. -/
theorem validateBlock_emptySection (b : Block) : validateBlock C E A s { b with poawxReceipts := some [] } =
    validateBlock C E A s { b with poawxReceipts := none } := by
  have hheader : validateBlockHeader C E s { b with poawxReceipts := some [] } s.height A.now =
      validateBlockHeader C E s { b with poawxReceipts := none } s.height A.now := by
    unfold validateBlockHeader
    rfl
  simp only [validateBlock, hheader, validatePoawxBlock, validatePoawxCoinbase, validatePoawxBlockReceipts,
    validateBlockDominanceWeights, validateBlockCandidateSets, validateBlockPuzzleProofs, validateBlockFinality,
    validateBlockCommittedAdmission, validateBlockTrueVrf, validateBlockFraudProofs, validateBlockProposer,
    validateBlockProposerRegistrations, registrationSection, Block.extensions, Block.receipts, Option.getD,
    List.filterMap]
  rfl

theorem applyTransactions_emptySection (b : Block) : applyTransactions C E s { b with poawxReceipts := some [] } =
    applyTransactions C E s { b with poawxReceipts := none } := by
  unfold applyTransactions
  rfl

/-- A receipt section with the count 0. -/
def emptySection : Bytes := receiptSection receiptSectionMagic PoawxBlockReceipt.serialize []

theorem emptySection_reads : Reads tryParseReceiptSection emptySection (some []) :=
  receiptSection_reads rfl rfl (by decide) (by simp)

/-- The bytes are read as a block with the given header, and the block is accepted. -/
def ReadsAccepted (C : Crypto) (E : NodeEnv) (A : Ambient) (s : ChainState) (header : BlockHeader) (w : Bytes) : Prop :=
  ∃ b rest, Block.deserializeForHeight E s.height w = .ok (b, rest) ∧ b.header = header ∧
    (connectBlock C E A b s).1 = .ok ()

/-- The parts of a block before its receipts can be followed by any bytes in which no further transaction is found. -/
def Fronts (E : NodeEnv) (height : Nat) (b : Block) (front : Bytes) : Prop :=
  ∀ (tail rest : Bytes) (found : Option (List PoawxBlockReceipt)),
    (∀ fuel, tail.length ≤ fuel → readBody fuel tail = .ok (([], found), rest)) →
    Block.deserializeForHeight E height (front ++ tail) = .ok ({ b with poawxReceipts := found }, rest)

theorem accepted_bare (hc : (connectBlock C E A b s).1 = .ok ()) (hr : b.receipts = []) :
    (connectBlock C E A { b with poawxReceipts := none } s).1 = .ok () ∧
      (connectBlock C E A { b with poawxReceipts := some [] } s).1 = .ok () := by
  have hv := validateBlock_emptySection (C := C) (E := E) (A := A) (s := s) b
  have ha := applyTransactions_emptySection (C := C) (E := E) (s := s) b
  cases hbr : b.poawxReceipts with
  | none =>
    rw [show b = { b with poawxReceipts := none } by rw [← hbr]] at hc
    exact ⟨hc, accepts_of_same_rules hv ha hc⟩
  | some receipts =>
    obtain rfl : receipts = [] := by simpa [Block.receipts, hbr] using hr
    rw [show b = { b with poawxReceipts := some [] } by rw [← hbr]] at hc
    exact ⟨accepts_of_same_rules hv.symm ha.symm hc, hc⟩

theorem Fronts.bare {front : Bytes} (hf : Fronts E s.height b front) (hc : (connectBlock C E A b s).1 = .ok ())
    (hr : b.receipts = []) : ReadsAccepted C E A s b.header front ∧
      ReadsAccepted C E A s b.header (front ++ emptySection) := by
  have hsection : ∀ fuel, emptySection.length ≤ fuel → readBody fuel emptySection = .ok (([], some []), []) := by
    intro fuel hfuel
    rw [← List.append_nil emptySection] at hfuel ⊢
    exact readBody_section emptySection_reads hfuel
  have hnone := hf [] [] none (by rintro (_ | fuel) - <;> rfl)
  rw [List.append_nil] at hnone
  obtain ⟨hfirst, hsecond⟩ := accepted_bare hc hr
  exact ⟨⟨_, _, hnone, rfl, hfirst⟩, ⟨_, _, hf _ _ _ hsection, rfl, hsecond⟩⟩

/-- Behind a receipt section the parser does not look. -/
theorem Fronts.receipts {front rest : Bytes} {receipts : List PoawxBlockReceipt} (hf : Fronts E s.height b front)
    (hc : (connectBlock C E A b s).1 = .ok ()) (hbr : b.poawxReceipts = some receipts) (hne : receipts ≠ [])
    (hfit : ReceiptsFit receipts) :
    ReadsAccepted C E A s b.header (front ++ (serializeReceiptSection b ++ rest)) := by
  have hread := hf _ rest _ fun _ => readBody_section (serializeReceiptSection_reads hbr hne hfit)
  rw [← hbr] at hread
  exact ⟨b, rest, hread, rfl, hc⟩

theorem accepted_read_twice {w rest : Bytes} (hp : Block.deserializeForHeight E s.height w = .ok (b, rest))
    (hc : (connectBlock C E A b s).1 = .ok ()) :
    ∃ u, ReadsAccepted C E A s b.header u ∧ ReadsAccepted C E A s b.header (u ++ emptySection) := by
  obtain ⟨hann, hap, htxs, hfit⟩ := Block.deserializeForHeight_yields _ _ _ hp
  obtain ⟨front, hf⟩ : ∃ front, Fronts E s.height b front :=
    ⟨_, fun _ _ _ => Block.deserializeForHeight_tail hann hap htxs⟩
  by_cases hr : b.receipts = []
  · exact ⟨front, hf.bare hc hr⟩
  · cases hbr : b.poawxReceipts with
    | none => exact absurd (by rw [Block.receipts, hbr]; rfl) hr
    | some receipts =>
      have hne : receipts ≠ [] := by simpa [Block.receipts, hbr] using hr
      have htwo : ∀ rest, ReadsAccepted C E A s b.header (front ++ (serializeReceiptSection b ++ rest)) :=
        fun _ => hf.receipts hc hbr hne (hfit receipts hbr)
      refine ⟨front ++ (serializeReceiptSection b ++ []), htwo [], ?_⟩
      rw [List.append_nil, List.append_assoc]
      exact htwo emptySection

/-- No byte string that is accepted is the only one with its header hash. -/
theorem accepted_wire_malleable {w rest : Bytes} (hp : Block.deserializeForHeight E s.height w = .ok (b, rest))
    (hc : (connectBlock C E A b s).1 = .ok ()) :
    ∃ w' b' rest', w' ≠ w ∧ Block.deserializeForHeight E s.height w' = .ok (b', rest') ∧
      (connectBlock C E A b' s).1 = .ok () ∧
      b'.header.hashForHeight C E s.height = b.header.hashForHeight C E s.height := by
  obtain ⟨u, hfirst, hsecond⟩ := accepted_read_twice hp hc
  have hne : u ++ emptySection ≠ u := by
    intro h
    have hlen := congrArg List.length h
    simp [emptySection, receiptSection, receiptSectionMagic, asciiBytes] at hlen
  obtain ⟨v, ⟨b', rest', hread, hheader, hok⟩, hvw⟩ : ∃ v, ReadsAccepted C E A s b.header v ∧ v ≠ w := by
    by_cases h : u = w
    · exact ⟨_, hsecond, fun heq => hne (heq.trans h.symm)⟩
    · exact ⟨u, hfirst, h⟩
  exact ⟨v, b', rest', hvw, hread, hok, by rw [hheader]⟩

def auditedNode : NodeEnv :=
  { devnetNode with activationHeight := fun v => if v = .auditHardening then some 0 else none }

def auditedParams : ChainParams := nodeParams auditedNode none none lockedGenesis

def earlyBlock : Block := committeeBlock lockedGenesisHash 1767583931 1

theorem early_wire_malleable :
    ∃ s, new shaCrypto auditedNode quietAmbient auditedParams = some s ∧
      auditHardeningActive auditedNode s.height ∧
      ∃ w' b' rest', w' ≠ earlyBlock.serializeForHeight auditedNode s.height ∧
        Block.deserializeForHeight auditedNode s.height w' = .ok (b', rest') ∧
        (connectBlock shaCrypto auditedNode quietAmbient b' s).1 = .ok () ∧
        b'.header.hashForHeight shaCrypto auditedNode s.height =
          earlyBlock.header.hashForHeight shaCrypto auditedNode s.height := by
  obtain ⟨s, hs, haudit, hread, hok⟩ := exists_of_any (new shaCrypto auditedNode quietAmbient auditedParams)
    (fun s => auditHardeningActive auditedNode s.height ∧
      Block.deserializeForHeight auditedNode s.height (earlyBlock.serializeForHeight auditedNode s.height) =
        .ok (earlyBlock, []) ∧
      (connectBlock shaCrypto auditedNode quietAmbient earlyBlock s).1 = .ok ()) (by decide +kernel)
  exact ⟨s, hs, haudit, accepted_wire_malleable hread hok⟩

def redundantWire : Bytes :=
  (earlyBlock.serializeForHeight auditedNode 1).take 136 ++ [0xfd, 0x19, 0x00] ++
    (earlyBlock.serializeForHeight auditedNode 1).drop 137

theorem redundant_length_accepted :
    ∃ s, new shaCrypto auditedNode quietAmbient auditedParams = some s ∧ s.height = 1 ∧
      auditHardeningActive auditedNode s.height ∧
      earlyBlock.serializeForHeight auditedNode 1 ≠ redundantWire ∧
      Block.deserializeForHeight auditedNode 1 (earlyBlock.serializeForHeight auditedNode 1) = .ok (earlyBlock, []) ∧
      Block.deserializeForHeight auditedNode 1 redundantWire = .ok (earlyBlock, []) ∧
      (connectBlock shaCrypto auditedNode quietAmbient earlyBlock s).1 = .ok () := by
  obtain ⟨s, hs, hheight, haudit, hok⟩ := exists_of_any (new shaCrypto auditedNode quietAmbient auditedParams)
    (fun s => s.height = 1 ∧
      auditHardeningActive auditedNode s.height ∧
      (connectBlock shaCrypto auditedNode quietAmbient earlyBlock s).1 = .ok ()) (by decide +kernel)
  exact ⟨s, hs, hheight, haudit, by decide +kernel, by decide +kernel, by decide +kernel, hok⟩

end ChainState

end IriumConsensus
