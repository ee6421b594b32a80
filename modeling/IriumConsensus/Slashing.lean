import IriumConsensus.Equivocation
import IriumConsensus.Reachable
import IriumConsensus.SameCore

namespace IriumConsensus

open ByteCodec Checks

variable {C : Crypto} {E : NodeEnv} {A : Ambient}

/-- The same node without the rule on penalties. -/
def NodeEnv.lenient (E : NodeEnv) : NodeEnv :=
  { E with
    required := fun v => match v with
      | .penaltyState => false
      | v => E.required v }

/-- A ticket for a high-trust role that says that its owner may not have it. -/
def TicketProof.OwnsUp (t : TicketProof) (roleId : UInt8) : Prop :=
  isHighTrustRole roleId ∧
    ∃ status, PenaltyStatus.fromId t.penaltyStatus = some status ∧ status.eligibleForHighTrustRole = false

theorem TicketProof.validate_iff {t : TicketProof} {networkId roleId : UInt8} {height bits : Nat} {prevHash : Hash32}
    {solver : Pkh} {enforced enforced' : Bool} (hle : enforced' → enforced) :
    t.validate C E networkId height prevHash roleId solver bits enforced = .ok () ↔
      t.validate C E networkId height prevHash roleId solver bits enforced' = .ok () ∧
        ¬(enforced ∧ t.OwnsUp roleId) := by
  simp only [TicketProof.validate, TicketProof.OwnsUp, bind_eq_ok, exists_unit, failIf_eq_ok, orFail_eq_ok]
  cases PenaltyStatus.fromId t.penaltyStatus with
  | none => simp
  | some status =>
    simp only [Option.some.injEq, exists_eq_left']
    tauto

theorem penaltyStateEnforced_lenient {height : Nat} (h : penaltyStateEnforced E.lenient height) :
    penaltyStateEnforced E height := by
  have hgate : poawxGate E.lenient .penaltyState height = poawxGate E .penaltyState height := rfl
  simp only [penaltyStateEnforced, poawxEnforced, hgate, Bool.and_eq_true] at h ⊢
  refine ⟨h.1, ?_⟩
  have hrequired := h.2
  unfold poawxRequired at hrequired ⊢
  split at hrequired
  next hmain => exact if_pos hmain
  next => exact absurd hrequired (by simp [NodeEnv.lenient])

/-- The receipt has a ticket that owns up. -/
def PoawxBlockReceipt.OwnsUp (r : PoawxBlockReceipt) : Prop :=
  ∃ ext, r.phase20Ext = some ext ∧ ∃ proofs, ext.roleTicketProofs = some proofs ∧
    ∃ q ∈ (roleIds.zip (ext.roleReward.zip proofs)).toList, q.2.2.OwnsUp q.1

section

variable {height : Nat} {prevHash : Hash32} {networkId : UInt8}

theorem checkTicketProofs_iff {i : Nat} {r : PoawxBlockReceipt} :
    checkTicketProofs C E height prevHash networkId i r = .ok () ↔
      checkTicketProofs C E.lenient height prevHash networkId i r = .ok () ∧
        ¬(penaltyStateEnforced E height ∧ r.OwnsUp) := by
  have hvalidate := fun q : UInt8 × Pkh × TicketProof => @TicketProof.validate_iff C E q.2.2 networkId q.1 height
    (effectiveSybilBits E) prevHash q.2.1 _ _ (@penaltyStateEnforced_lenient E height)
  simp only [checkTicketProofs, PoawxBlockReceipt.OwnsUp, bind_eq_ok, orFail_eq_ok, checkAll_eq_ok, mapError_eq_ok]
  constructor
  · rintro ⟨ext, hext, proofs, hproofs, hall⟩
    refine ⟨⟨ext, hext, proofs, hproofs, fun q hq => ((hvalidate q).mp (hall q hq)).1⟩, ?_⟩
    rintro ⟨hpenalty, ext', hext', proofs', hproofs', q, hq, hown⟩
    cases Option.some.inj (hext.symm.trans hext')
    cases Option.some.inj (hproofs.symm.trans hproofs')
    exact ((hvalidate q).mp (hall q hq)).2 ⟨hpenalty, hown⟩
  · rintro ⟨⟨ext, hext, proofs, hproofs, hall⟩, hnot⟩
    refine ⟨ext, hext, proofs, hproofs, fun q hq => (hvalidate q).mpr ⟨hall q hq, fun h => ?_⟩⟩
    exact hnot ⟨h.1, ext, hext, proofs, hproofs, q, hq, h.2⟩

theorem validatePhase20TicketProofs_iff {receipts : List PoawxBlockReceipt} :
    validatePhase20TicketProofs C E receipts height prevHash networkId = .ok () ↔
      validatePhase20TicketProofs C E.lenient receipts height prevHash networkId = .ok () ∧
        ¬(penaltyStateEnforced E height ∧ ∃ r ∈ receipts, r.OwnsUp) := by
  simp only [validatePhase20TicketProofs, checkEach, checkAll_eq_ok]
  constructor
  · intro h
    refine ⟨fun p hp => (checkTicketProofs_iff.mp (h p hp)).1, ?_⟩
    rintro ⟨hpenalty, r, hr, hown⟩
    obtain ⟨i, hi⟩ := List.mem_iff_getElem?.mp hr
    exact (checkTicketProofs_iff.mp (h (r, i) (List.mem_zipIdx_iff_getElem?.mpr hi))).2 ⟨hpenalty, hown⟩
  · rintro ⟨h, hnot⟩ p hp
    refine checkTicketProofs_iff.mpr ⟨h p hp, fun h => hnot ⟨h.1, p.1, ?_, h.2⟩⟩
    exact List.mem_of_getElem? (List.mem_zipIdx_iff_getElem?.mp hp)

end

namespace ChainState

variable {s : ChainState} {b : Block}

def ticketsChecked (E : NodeEnv) (height : Nat) : Bool :=
  poawxConsensusActive E height && phase20ProductionActive E height && ticketsEnforced E height

/-- The tickets of the block are checked, penalties included, and one of them owns up. -/
def OwnsUp (E : NodeEnv) (height : Nat) (b : Block) : Prop :=
  ticketsChecked E height ∧ penaltyStateEnforced E height ∧ ∃ r ∈ b.receipts, r.OwnsUp

theorem checkFraudProofs_lenient (s : ChainState) (height : Nat) (proofs : List FraudProofV1) (seen : List Offence) :
    checkFraudProofs C E.lenient s height proofs seen = checkFraudProofs C E s height proofs seen := by
  induction proofs generalizing seen with
  | nil => rfl
  | cons fp rest ih =>
    simp only [checkFraudProofs, ih]
    rfl

theorem checkExtFraud_lenient (s : ChainState) (height : Nat) (exts : List (PoawxBlockReceipt × Phase20ReceiptExt))
    (seen : List Offence) : checkExtFraud C E.lenient s height exts seen = checkExtFraud C E s height exts seen := by
  induction exts generalizing seen with
  | nil => rfl
  | cons p rest ih => simp only [checkExtFraud, checkFraudProofs_lenient, ih]

theorem checkAnnounces_lenient (s : ChainState) (height : Nat) (announces : List ProposerRegistrationV1)
    (seen : List PubKey33) :
    checkAnnounces C E.lenient s height announces seen = checkAnnounces C E s height announces seen := by
  induction announces generalizing seen with
  | nil => rfl
  | cons a rest ih =>
    simp only [checkAnnounces, ih]
    rfl

theorem validatePhase20ProductionBlock_iff {receipts : List PoawxBlockReceipt} {height : Nat} {prevHash : Hash32} :
    validatePhase20ProductionBlock C E b receipts height prevHash = .ok () ↔
      validatePhase20ProductionBlock C E.lenient b receipts height prevHash = .ok () ∧
        ¬(ticketsEnforced E height ∧ penaltyStateEnforced E height ∧ ∃ r ∈ receipts, r.OwnsUp) := by
  simp only [validatePhase20ProductionBlock, bind_eq_ok, exists_unit, checkWhen_eq_ok]
  constructor
  · rintro ⟨coinbase, hcoinbase, hpayout, hprecommit, htickets⟩
    exact ⟨⟨coinbase, hcoinbase, hpayout, hprecommit, fun ht => (validatePhase20TicketProofs_iff.mp (htickets ht)).1⟩,
      fun h => (validatePhase20TicketProofs_iff.mp (htickets h.1)).2 h.2⟩
  · rintro ⟨⟨coinbase, hcoinbase, hpayout, hprecommit, htickets⟩, hnot⟩
    exact ⟨coinbase, hcoinbase, hpayout, hprecommit, fun ht =>
      validatePhase20TicketProofs_iff.mpr ⟨htickets ht, fun hown => hnot ⟨ht, hown⟩⟩⟩

theorem validatePoawxBlockReceipts_iff {height : Nat} {previous : Option Block} :
    validatePoawxBlockReceipts C E b height previous = .ok () ↔
      validatePoawxBlockReceipts C E.lenient b height previous = .ok () ∧ ¬OwnsUp E height b := by
  have hproduction : phase20ProductionActive E.lenient height = phase20ProductionActive E height := rfl
  simp only [validatePoawxBlockReceipts, checkActiveReceipts, bind_eq_ok, exists_unit, checkWhen_eq_ok, OwnsUp,
    ticketsChecked, Bool.and_eq_true, hproduction]
  cases phase20ProductionActive E height with
  | false =>
    simp only [Bool.false_eq_true, if_false, and_false, false_and, not_false_eq_true, and_true]
    exact Iff.rfl
  | true =>
    simp only [if_true, and_true]
    constructor
    · rintro ⟨hdelegated, hactive⟩
      refine ⟨⟨hdelegated, fun hg => ?_⟩, ?_⟩
      · obtain ⟨hsome, hroot, hlanes, parent, hparent, heach, hpaid⟩ := hactive hg
        exact ⟨hsome, hroot, hlanes, parent, hparent, heach, (validatePhase20ProductionBlock_iff.mp hpaid).1⟩
      · rintro ⟨⟨hg, ht⟩, hown⟩
        obtain ⟨-, -, -, parent, -, -, hpaid⟩ := hactive hg
        exact (validatePhase20ProductionBlock_iff.mp hpaid).2 ⟨ht, hown⟩
    · rintro ⟨⟨hdelegated, hactive⟩, hnot⟩
      refine ⟨hdelegated, fun hg => ?_⟩
      obtain ⟨hsome, hroot, hlanes, parent, hparent, heach, hpaid⟩ := hactive hg
      exact ⟨hsome, hroot, hlanes, parent, hparent, heach,
        validatePhase20ProductionBlock_iff.mpr ⟨hpaid, fun h => hnot ⟨⟨hg, h.1⟩, h.2⟩⟩⟩

theorem validateBlock_iff : validateBlock C E A s b = .ok () ↔
    validateBlock C E.lenient A s b = .ok () ∧ ¬OwnsUp E s.height b := by
  have hfraud : validateBlockFraudProofs C E.lenient s b s.height = validateBlockFraudProofs C E s b s.height :=
    checkExtFraud_lenient s s.height _ _
  have hregs : validateBlockProposerRegistrations C E.lenient s b s.height =
      validateBlockProposerRegistrations C E s b s.height := by
    simp only [validateBlockProposerRegistrations, checkAnnounces_lenient]
  simp only [validateBlock, validatePoawxBlock, bind_eq_ok, exists_unit]
  rw [validatePoawxBlockReceipts_iff, hfraud, hregs]
  constructor
  · rintro ⟨hheader, hcoinbase, ⟨hreceipts, hown⟩, hrest⟩
    exact ⟨⟨hheader, hcoinbase, hreceipts, hrest⟩, hown⟩
  · rintro ⟨⟨hheader, hcoinbase, hreceipts, hrest⟩, hown⟩
    exact ⟨hheader, hcoinbase, ⟨hreceipts, hown⟩, hrest⟩

/-- The record of the offences without what became of the offenders. -/
def pardoned (s : ChainState) : ChainState := { s with penalty := { s.penalty with records := ∅ } }

def Accepts (C : Crypto) (E : NodeEnv) (A : Ambient) (s : ChainState) (b : Block) : Prop :=
  (connectBlock C E A b s).1 = .ok ()

theorem accepts_iff : Accepts C E A s b ↔ Accepts C E.lenient A s.pardoned b ∧ ¬OwnsUp E s.height b := by
  have hsame : SameChecks s.pardoned s := ⟨.refl _, rfl, rfl, rfl, rfl, rfl, rfl⟩
  have hmaturity : coinbaseMaturity E.lenient = coinbaseMaturity E := rfl
  have htxs : applyTransactions C E.lenient s.pardoned b = applyTransactions C E s b :=
    applyTransactions_congr hmaturity (fun _ => rfl) s b
  have hok : ∀ (E : NodeEnv) (s : ChainState), Accepts C E A s b ↔ validateBlock C E A s b = .ok () ∧
      ∃ undo L, applyTransactions C E s b s.toLedger = (.ok undo, L) ∧ s.issued + undo.subsidyCreated ≤ u64Max := by
    intro E s
    constructor
    · intro h
      obtain ⟨hv, undo, L, hundo, hissued, -⟩ := connectBlock_eq_ok.mp (Prod.ext h rfl)
      exact ⟨hv, undo, L, hundo, hissued⟩
    · rintro ⟨hv, undo, L, hundo, hissued⟩
      exact congrArg Prod.fst (connectBlock_eq_ok.mpr ⟨hv, undo, L, hundo, hissued, rfl⟩)
  rw [hok, hok, validateBlock_iff, htxs, hsame.validateBlock]
  exact and_right_comm

/-- The block pays the identity for a role or counts its vote. -/
def Rewards (b : Block) (pkh : Pkh) : Prop :=
  ∃ p ∈ b.extensions, pkh ∈ p.2.roleReward.toList ∨
    ∃ fp, p.2.finalityProof = some fp ∧ pkh ∈ fp.votes.map FinalityVoteV1.memberPkh

/-- The block is rejected if it rewards a slashed identity. -/
def KeepsOutSlashed (C : Crypto) (E : NodeEnv) (A : Ambient) (s : ChainState) (b : Block) : Prop :=
  ∀ pkh, s.penalty.isSlashed pkh → Rewards b pkh → ¬Accepts C E A s b

/-- The record of a penalty keeps nobody out: a block that rewards a slashed identity is rejected exactly if one of
its own tickets owns up, or a node without records and without the rule on penalties rejects it too. -/
theorem keepsOutSlashed_iff (s : ChainState) (b : Block) :
    KeepsOutSlashed C E A s b ↔
      (∀ pkh, s.penalty.isSlashed pkh → ¬Rewards b pkh) ∨ OwnsUp E s.height b ∨
        ¬Accepts C E.lenient A s.pardoned b := by
  have hrejects : ¬Accepts C E A s b ↔ OwnsUp E s.height b ∨ ¬Accepts C E.lenient A s.pardoned b := by
    rw [accepts_iff]
    tauto
  rw [KeepsOutSlashed, ← hrejects]
  constructor
  · intro h
    by_cases haccepts : Accepts C E A s b
    · exact .inl fun pkh hslashed hreward => h pkh hslashed hreward haccepts
    · exact .inr haccepts
  · rintro (hnone | hrejected) pkh hslashed hreward
    · exact absurd hreward (hnone pkh hslashed)
    · exact hrejected

/-- A devnet that punishes double votes from the first block on, and from the second one on has roles,
tickets and a finality committee. -/
def penaltyNode : NodeEnv :=
  { devnetNode with
    activationHeight := fun v => match v with
      | .fraudProof | .penaltyState => some 1
      | .poawx | .multiRoleReward | .fairnessMatrix | .tickets | .finalityCommittee => some 2
      | _ => none
    required := fun v => match v with
      | .fraudProof | .penaltyState | .tickets | .finalityCommittee => true
      | _ => false
    poawxModeActive := true }

def penaltyParams : ChainParams := nodeParams penaltyNode none none lockedGenesis

def voteFor (height : UInt64) (blockHash : Hash32) (signature : Nat) : FinalityVoteV1 :=
  { commitVote with targetHeight := height, blockHash := blockHash, signature := beVec 64 signature }

def voteOne : FinalityVoteV1 :=
  voteFor 1 (beVec 32 1) 0x04d1071918b52ac2b0e643201ab1bd962138bfa1879454f8555a9d0fb7f9aada600209b3b7cde532a04a9eef44c33622c4db4c9e45bbba64e21d183902c9cbf8

def voteTwo : FinalityVoteV1 :=
  voteFor 1 (beVec 32 2) 0xacfea0fa7bb8aa07fb5d1bfaa5f35ab8119037be8e3dd2819496e10e572f7e4419b8071cdf4831396f6e0593cdb28795f417f05ab71c6d09eaf85d3eee6fc96e

/-- The first block proves that the owner of `keyOne` has voted twice. -/
def accusingBlock : Block :=
  (committeeBlock lockedGenesisHash 1767583931 1).withExt
    { blankExt with fraudProofs := some [.finalityEquivocation 2 (ByteVec.zero 20) voteOne voteTwo] }

def accusingHash : Hash32 := beVec 32 0x3224e2d5ff9604977a419dd95e2fcc86a27a7609b4874bb46f70b1515e4c7add

def slashedVote : FinalityVoteV1 :=
  voteFor 2 accusingHash 0x30975acc986bffa7b64d1a58d39c0edb4a952d2edac97b5ae111030ab4a49e6247607502c1942a54cf256dd8bbd4321d5c61409a6e1f4364977a6ac3bffc9d99

def slashedClaim (roleId : UInt8) (claimDigest : Nat) : PoawxRoleClaim :=
  { blankRoleClaim with roleId := roleId, laneId := 2, solverPkh := keyOnePkh, claimDigest := beVec 32 claimDigest }

def slashedTicket (roleId penaltyStatus : UInt8) (ticketDigest : Nat) : TicketProof where
  networkId := 2
  targetHeight := 2
  roleId
  minerPkh := keyOnePkh
  epoch := 2
  expiryHeight := 3
  assignmentPublicKey := keyOne
  sybilWorkNonce := beVec 32 363
  sybilWorkDigest := beVec 32 0x00ad4304d7e747362d00c22c03c5866aabb4fa4d3ce08d04cb5bf05e93ccd3cd
  penaltyStatus
  ticketDigest := beVec 32 ticketDigest

/-- Every role goes to the slashed owner, who is the committee as well. -/
def slashedExt (penaltyStatus : UInt8) : Phase20ReceiptExt :=
  { blankExt with
    roleReward := ⟨keyOnePkh, keyOnePkh, keyOnePkh⟩
    claims :=
      ⟨slashedClaim 1 0x7f54eb9b79af4793e303e5472f01d386d0ccfa948da64c0116e3451a35ab0b22,
        slashedClaim 2 0x5e0fd89b830223f7db70628a82e417086bab332402c171d28dc872098216c61f,
        slashedClaim 3 0x552877f7dd6394e30f4deaffeb0430b32be97987807bbb156225492e412b69ec⟩
    roleTicketProofs := some
      ⟨slashedTicket 1 penaltyStatus 0x80cd19b1958cb207e91944443afb6314f876d21107c270d487c158e392dc2bcf,
        slashedTicket 2 penaltyStatus 0xf60c6e7ea29580b333f83c08cf68b20b8dd8d4108b2268a3b4310937c621085b,
        slashedTicket 3 penaltyStatus 0x941f3f419973d55efb8f877b3ed668cdbca411f74b78585f4e3f399313687b5d⟩
    candidateSet := some ⟨2, 2, ByteVec.zero 32,
      [⟨roleSupportContributor, keyOnePkh, keyOne, ByteVec.zero 32, 0, ByteVec.zero 32, 0, 0, 0, ByteVec.zero 32⟩]⟩
    finalityProof := some ⟨1, 2, 2, accusingHash, ByteVec.zero 32, 0, 2, 3, [slashedVote]⟩ }

def slashedReceipt (penaltyStatus : UInt8) : PoawxBlockReceipt :=
  { receiptWith (slashedExt penaltyStatus) with
    height := 2
    workerPubkey := keyOne
    workerSig := beVec 64 0x08d4ab24137a8e783926d03469e41934bc0717585ed98544929974adb87271434c4b094a830cb2cf648b2e6be1c9c9ecbf50c0f669dc34743800d55dd5800b75
    solution := beVec 8 410
    commitmentNonce := beVec 32 0x5b84c4c2f09c8692b029232fd2ba30ea75b1d955bbd1bbdd00d05ce9765a8ea9 }

/-- All that the owner of `keyOne` has signed. -/
def slashedCrypto : Crypto :=
  signaturesCrypto
    [{ digest := beVec 32 0xc31caf099b0a4601522e1c5dfa0202906f7e9d8290d5f6886499a67fb6cb4ffe
       signature := voteOne.signature },
     { digest := beVec 32 0xd161f88f39d8c7801db1622a0202f4ef4fd9022e83cdf89690d0c84ee3d9e20a
       signature := voteTwo.signature },
     { digest := beVec 32 0xbd133ced588461fd3035458f473f29760ec4777d8c62c4de2268bb1d78d21387
       signature := slashedVote.signature },
     { digest := beVec 32 0x5a5c7fc3a6c36e2bb57690470f204d0a29b738c010bf535f6647407a24addb59
       signature := (slashedReceipt 0).workerSig }]

def slashedCoinbase (receiptRoot : Nat) : Transaction :=
  coinbaseTx []
    [⟨2750000000, p2pkhScript keyOnePkh⟩, ⟨1100000000, p2pkhScript keyOnePkh⟩, ⟨650000000, p2pkhScript keyOnePkh⟩,
      ⟨500000000, p2pkhScript keyOnePkh⟩, ⟨0, [0x6a, 0x24] ++ asciiBytes "irx1" ++ (beVec 32 receiptRoot).bytes⟩]

/-- The second block pays the slashed owner for every role and carries their vote. -/
def slashedBlock (penaltyStatus : UInt8) (receiptRoot merkleRoot : Nat) (nonce : UInt32) : Block :=
  { devnetBlock accusingHash (beVec 32 merkleRoot) 1767583932 nonce [slashedCoinbase receiptRoot] with
    poawxReceipts := some [slashedReceipt penaltyStatus] }

def ownedUpBlock : Block :=
  slashedBlock 5 0x5ba558a6bc9ed7c9046e93dfa77614345e024e021b648b7b55a7e5bdf288b78c
    0xc7658f4d8776a8a9c9a3120248d7774ec14404b87061dd023625d6735b297f85 1

/-- With tickets that say "slashed" the block is refused, and by no other rule. -/
theorem owned_up_block_rejected :
    ∃ s, Reachable slashedCrypto penaltyNode s ∧ s.penalty.isSlashed keyOnePkh ∧ Rewards ownedUpBlock keyOnePkh ∧
      Accepts slashedCrypto penaltyNode.lenient quietAmbient s.pardoned ownedUpBlock ∧
      ¬Accepts slashedCrypto penaltyNode quietAmbient s ownedUpBlock := by
  obtain ⟨s, hs, htickets, hpenalty, hslashed, haccepts⟩ := exists_reachable_of_runOf (C := slashedCrypto)
    (E := penaltyNode) quietAmbient penaltyParams [accusingBlock]
    (fun s => ticketsChecked penaltyNode s.height ∧ penaltyStateEnforced penaltyNode s.height ∧
      s.penalty.isSlashed keyOnePkh ∧
      (connectBlock slashedCrypto penaltyNode.lenient quietAmbient ownedUpBlock s.pardoned).1 = .ok ())
    (by decide +kernel)
  have hreward : Rewards ownedUpBlock keyOnePkh :=
    ⟨(slashedReceipt 5, slashedExt 5), List.mem_singleton_self _, .inl List.mem_cons_self⟩
  have hown : OwnsUp penaltyNode s.height ownedUpBlock := by
    refine ⟨htickets, hpenalty, slashedReceipt 5, List.mem_singleton_self _, slashedExt 5, rfl, _, rfl,
      (2, keyOnePkh, slashedTicket 2 5 0xf60c6e7ea29580b333f83c08cf68b20b8dd8d4108b2268a3b4310937c621085b), ?_, rfl,
      .slashed, rfl, rfl⟩
    exact List.mem_cons_of_mem _ List.mem_cons_self
  have hkept : KeepsOutSlashed slashedCrypto penaltyNode quietAmbient s ownedUpBlock :=
    (keepsOutSlashed_iff s ownedUpBlock).mpr (.inr (.inl hown))
  exact ⟨s, hs, hslashed, hreward, haccepts, hkept keyOnePkh hslashed hreward⟩

def rewardedBlock : Block :=
  slashedBlock 0 0x90ecb4bcdef19da857b669e60a7b4b0ff8d677069c077b32c52eb03cef0be836
    0x995ea501b8ba47cf1a425216d8a1ede82bd23e54346c75525835929e87e5c8ee 0

/-- With tickets that say "clean" such a block is accepted: the slashed owner has all roles and the vote. -/
theorem slashed_identity_rewarded :
    ∃ s s', Reachable slashedCrypto penaltyNode s ∧ fraudProofEnforced penaltyNode s.height ∧
      penaltyStateEnforced penaltyNode s.height ∧ ticketsChecked penaltyNode s.height ∧
      finalityCommitteeEnforced penaltyNode s.height ∧ s.penalty.isSlashed keyOnePkh ∧
      rewardedBlock.extensions = [(slashedReceipt 0, slashedExt 0)] ∧
      (slashedExt 0).roleReward = ⟨keyOnePkh, keyOnePkh, keyOnePkh⟩ ∧
      ((slashedExt 0).finalityProof.map fun fp => fp.votes.map FinalityVoteV1.memberPkh) = some [keyOnePkh] ∧
      connectBlock slashedCrypto penaltyNode quietAmbient rewardedBlock s = (.ok (), s') := by
  obtain ⟨s, hs, hfraud, hpenalty, htickets, hfinality, hslashed, hok⟩ := exists_reachable_of_runOf
    (C := slashedCrypto) (E := penaltyNode) quietAmbient penaltyParams [accusingBlock]
    (fun s => fraudProofEnforced penaltyNode s.height ∧ penaltyStateEnforced penaltyNode s.height ∧
      ticketsChecked penaltyNode s.height ∧ finalityCommitteeEnforced penaltyNode s.height ∧
      s.penalty.isSlashed keyOnePkh ∧
      (connectBlock slashedCrypto penaltyNode quietAmbient rewardedBlock s).1 = .ok ()) (by decide +kernel)
  exact ⟨s, _, hs, hfraud, hpenalty, htickets, hfinality, hslashed, rfl, rfl, rfl, Prod.ext hok rfl⟩

end ChainState

end IriumConsensus
