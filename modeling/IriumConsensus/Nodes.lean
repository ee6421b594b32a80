import IriumConsensus.ChainState
import IriumConsensus.RealHash
import IriumConsensus.Startup

namespace IriumConsensus

open ByteCodec

def quietAmbient : Ambient where
  now := 1800000000
  admittedCandidateSet height seed := ⟨0, UInt64.ofNat height, seed, []⟩
  firstKey := ByteVec.least

def plainNode (network : NetworkVar) (standardHeaderActivationHeight : Nat) : NodeEnv where
  network
  activationHeight _ := none
  required _ := false
  number _ := none
  poawxModeActive := false
  thirdPartyPoolMode := false
  standardHeaderActivationHeight

def mainnetNode : NodeEnv := plainNode .mainnet 22888
def devnetNode : NodeEnv := plainNode .devnet 1

def devnetParams : ChainParams := nodeParams devnetNode none none lockedGenesis

def lockedGenesisHash : Hash32 := beVec 32 0x0000000028f25d65557e9d8d9e991f516c00d68f5aeae10b750645b398bd10a3

def coinbaseTx (tag : Bytes) (outputs : List TxOutput) : Transaction where
  version := 1
  inputs := [⟨ByteVec.zero 32, 0xffffffff, tag, 0xffffffff⟩]
  outputs
  locktime := 0

def devnetBlock (prevHash merkleRoot : Hash32) (time nonce : UInt32) (transactions : List Transaction) : Block where
  header := { version := 1, prevHash, merkleRoot, time, bits := 0x207fffff, nonce }
  transactions
  auxpow := none
  poawxReceipts := none

def blankRoleClaim : PoawxRoleClaim where
  roleId := 0
  laneId := 0
  solverPkh := ByteVec.zero 20
  nonce := ByteVec.zero 32
  secret := ByteVec.zero 32
  claimDigest := ByteVec.zero 32
  commitmentHash := none

def blankExt : Phase20ReceiptExt where
  roleReward := ⟨ByteVec.zero 20, ByteVec.zero 20, ByteVec.zero 20⟩
  claims := ⟨blankRoleClaim, blankRoleClaim, blankRoleClaim⟩
  feeBps := 0
  feePkh := ByteVec.zero 20
  precommitRoot := none
  roleTicketProofs := none
  roleDominanceWeights := none
  candidateSet := none
  rolePuzzleProofs := none
  finalityProof := none
  committedAdmission := none
  roleAssignmentV2 := none
  fraudProofs := none
  proposerAssignment := none
  proposerRegistrations := none

/-- The worker is the owner of `keyOne`. -/
def receiptWith (ext : Phase20ReceiptExt) : PoawxBlockReceipt where
  height := 0
  lane := 0
  workerPkh := keyOnePkh
  workerPubkey := ByteVec.zero 33
  workerSig := ByteVec.zero 64
  solution := ByteVec.zero 8
  commitmentNonce := ByteVec.zero 32
  delegation := none
  phase20Ext := some ext

def Block.withExt (b : Block) (ext : Phase20ReceiptExt) : Block := { b with poawxReceipts := some [receiptWith ext] }

def keyOneAssignment : AssignmentProofV2 where
  version := 2
  networkId := 2
  targetHeight := 0
  roleId := roleProposer
  solverPkh := keyOnePkh
  assignmentPublicKey := keyOne
  ticketDigest := ByteVec.zero 32
  seed := ByteVec.zero 32
  vrfOutput := ByteVec.zero 32
  vrfProof := ByteVec.zero 81
  digest := ByteVec.zero 32

namespace ChainState

def committeeNode : NodeEnv :=
  { devnetNode with
    activationHeight := fun v => match v with
      | .forkChoiceHardening | .proposerVrf => some 0
      | .finalityCommittee => some 2
      | _ => none
    required := fun v => v = .finalityCommittee
    number := fun v => match v with
      | .minFinalityCommittee => some 1
      | .proposerFreezeDepth => some 2
      | _ => none }

def committeeParams : ChainParams := nodeParams committeeNode none none lockedGenesis

def committeeBlock (prevHash : Hash32) (time nonce : UInt32) : Block :=
  devnetBlock prevHash (beVec 32 0x40af015ab4c36fc488694a99e23f3214d10846116d7d0b7f0a4d36c2a8df4c4a) time nonce
    [coinbaseTx [] [⟨5000000000, p2pkhScript (ByteVec.zero 20)⟩]]

def commitVote : FinalityVoteV1 where
  version := 1
  networkId := 2
  targetHeight := 4
  blockHash := beVec 32 0x346b0076f4caf598a9f940bbc4481f628343d18418e15d9709776a76a1feee6a
  parentHash := ByteVec.zero 32
  committeeEpoch := 0
  memberPkh := keyOnePkh
  memberPubkey := keyOne
  ticketDigest := ByteVec.zero 32
  voteType := 1
  signature := beVec 64 0xa3310d654dd1f5f6919a1cbeafe13aa1f9d55022cd6cbb02d1a48ad02c7ca98668feac3aba5e9eac232d2aca4127033ecbaa0afdf7a79c8c58b919aabdf10110

def committeeCrypto : Crypto :=
  signedCrypto
    { digest := beVec 32 0xc7c11234eef50f234ea8de6ebf6384adb54074edb66b0fe3faf67c2fcde54dff
      signature := commitVote.signature }

def finalityExt : Phase20ReceiptExt :=
  { blankExt with
    candidateSet := some ⟨2, 4, ByteVec.zero 32,
      [⟨roleSupportContributor, keyOnePkh, keyOne, ByteVec.zero 32, 0, ByteVec.zero 32, 0, 0, 0, ByteVec.zero 32⟩]⟩
    finalityProof := some ⟨1, 2, 4, commitVote.blockHash, ByteVec.zero 32, 0, 2, 3, [commitVote]⟩ }

def finalBlock : Block :=
  committeeBlock (beVec 32 0x1f348edf151895209940a85d643cb5036368e4fda04b75746e084d7e387a588d) 1767583933 0

def finalizingBlock : Block := (committeeBlock commitVote.blockHash 1767583934 0).withExt finalityExt

/-- The first block registers the key of the member, the last one carries its vote. -/
def finalizedBranch : List Block :=
  [(committeeBlock lockedGenesisHash 1767583931 1).withExt
      { blankExt with proposerAssignment := some ⟨0, keyOneAssignment⟩ },
    committeeBlock (beVec 32 0x3224e2d5ff9604977a419dd95e2fcc86a27a7609b4874bb46f70b1515e4c7add) 1767583932 3,
    finalBlock, finalizingBlock]

end ChainState

end IriumConsensus
