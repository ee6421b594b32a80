import IriumConsensus.Poawx.Payout

namespace IriumConsensus

open ByteCodec Checks

/-- The root in a script `6a 24 "irx1" root`. -/
def irx1Root (script : Bytes) : Option Hash32 :=
  if script.length = 38 ∧ script.take 6 = [0x6a, 0x24] ++ asciiBytes "irx1" then sliceVec 32 6 script else none

def blockHasIrx1Commitment (b : Block) : Bool :=
  b.transactions.head?.any fun coinbase => coinbase.outputs.any fun out =>
    (irx1Root out.scriptPubkey).any fun root => decide (root ≠ ByteVec.zero 32)

def irx1RootFromBlockBytes (b : Block) : Option Hash32 := do
  let coinbase ← b.transactions.head?
  coinbase.outputs.findSome? fun out => irx1Root out.scriptPubkey

variable (C : Crypto) (E : NodeEnv)

def validatePoawxCoinbase (b : Block) (height : Nat) : Except String Unit :=
  failIf (poawxConsensusActive E height ∧ blockHasIrx1Commitment b = false)
    s!"connect_block: poawx irx1 commitment missing at height {height}"

/-- A value that does not parse is read as no difficulty at all. -/
def poawxBlockDifficultyBits : Nat :=
  if networkIdByte E = 0 then 20 else ((E.number .puzzleDifficultyBits).map (min · 24)).getD 8

def checkDelegationFee (d : Delegation) (height i : Nat) : Except String Unit :=
  if d.feeBps = 0 then .ok ()
  else do
    failIf ((thirdPartyFeeActive E height && thirdPartyPoolModeEnabled E) = false)
      s!"connect_block: receipt[{i}] nonzero delegation fee_bps {d.feeBps} rejected (third-party mode/fee gate not active)"
    failIf (thirdPartyFeeCapBps < d.feeBps)
      s!"connect_block: receipt[{i}] delegation fee_bps {d.feeBps} exceeds cap {thirdPartyFeeCapBps}"
    failIf (d.feePkh = ByteVec.zero 20)
      s!"connect_block: receipt[{i}] nonzero delegation fee_bps with zero fee_pkh"

def PoawxBlockReceipt.challenge (r : PoawxBlockReceipt) : Hash32 :=
  C.sha256 (r.solution.bytes ++ r.commitmentNonce.bytes ++ le64 r.height)

/-- The signature checks of both receipt modes, after the key was read; `who` names the signer. -/
def checkReceiptSignature (who : String) (r : PoawxBlockReceipt) (height i : Nat) : Except String Unit := do
  failIf (C.sigFromSlice r.workerSig = false)
    (s!"connect_block: receipt[{i}] malformed " ++ who ++ s!" at height {height}")
  failIf (auditHardeningActive E height ∧ C.sigHighS r.workerSig)
    (s!"connect_block: receipt[{i}] non-canonical (high-S) " ++ who ++ s!" at height {height}")
  failIf (C.verifyPrehash r.workerPubkey.bytes (r.challenge C) r.workerSig = false)
    (s!"connect_block: receipt[{i}] " ++ who ++ s!" verification failed at height {height}")

def checkDirectReceipt (r : PoawxBlockReceipt) (height i : Nat) : Except String Unit := do
  failIf (C.keyFromSec1 r.workerPubkey.bytes = false)
    s!"connect_block: receipt[{i}] invalid worker_pubkey at height {height}"
  failIf (hash160 C r.workerPubkey.bytes ≠ r.workerPkh)
    s!"connect_block: receipt[{i}] worker_pkh/pubkey mismatch at height {height}"
  checkReceiptSignature C E "worker_sig" r height i

/-- Mode 1: a pool signs the receipt with the key the miner delegated to. -/
def checkDelegatedReceipt (d : Delegation) (r : PoawxBlockReceipt) (height i : Nat) : Except String Unit := do
  failIf (poawxDelegationActive E height = false)
    s!"connect_block: receipt[{i}] mode-1 delegated receipt before delegation activation at height {height}"
  failIf (d.networkId ≠ networkIdByte E)
    s!"connect_block: receipt[{i}] delegation network_id mismatch at height {height}"
  failIf (d.minerPkh C ≠ r.workerPkh)
    s!"connect_block: receipt[{i}] delegation miner_pkh != worker_pkh at height {height}"
  failIf (d.expiryHeight.toNat < height)
    s!"connect_block: receipt[{i}] delegation expired (height {height} > expiry {d.expiryHeight})"
  checkDelegationFee E d height i
  (d.verifySignature C).mapError fun e => s!"connect_block: receipt[{i}] {e} at height {height}"
  failIf (r.workerPubkey ≠ d.poolPubkey)
    s!"connect_block: receipt[{i}] signer != delegated pool_pubkey at height {height}"
  failIf (C.keyFromSec1 r.workerPubkey.bytes = false)
    s!"connect_block: receipt[{i}] invalid signer pubkey at height {height}"
  checkReceiptSignature C E "signer sig" r height i

def checkReceiptSigner (r : PoawxBlockReceipt) (height i : Nat) : Except String Unit :=
  match r.delegation with
  | none => checkDirectReceipt C E r height i
  | some d => checkDelegatedReceipt C E d r height i

def assignmentSeedV1 (parentHash : Hash32) (parentHeight : Nat) : Hash32 :=
  C.sha256 (parentHash.bytes ++ leList 8 parentHeight ++ asciiBytes "poawx_assignment_seed_v1")

def commitmentNonceFor (seed : Hash32) : Hash32 := C.sha256 (seed.bytes ++ asciiBytes "commitment_nonce")

def checkReceipt (seed : Hash32) (difficulty height i : Nat) (r : PoawxBlockReceipt) : Except String Unit := do
  let expectedNonce := commitmentNonceFor C seed
  failIf (r.commitmentNonce ≠ expectedNonce)
    s!"connect_block: receipt[{i}] commitment_nonce mismatch at height {height}"
  checkReceiptSigner C E r height i
  let leading := leadingZeroBits (sha256d C (seed.bytes ++ expectedNonce.bytes ++ r.solution.bytes))
  failIf (leading < difficulty)
    s!"connect_block: receipt[{i}] insufficient puzzle PoW: {leading} bits < {difficulty} required at height {height}"

def checkReceiptRoot (b : Block) (receipts : List PoawxBlockReceipt) (height : Nat) : Except String Unit := do
  let coinbaseRoot ← orFail (irx1RootFromBlockBytes b)
    s!"connect_block: no irx1 OP_RETURN in coinbase at height {height}"
  failIf (coinbaseRoot = ByteVec.zero 32) s!"connect_block: zero irx1 root at height {height}"
  let computedRoot := irx1RootFromBlockReceiptsAudit C receipts (phase20ProductionActive E height)
    (auditHardeningActive E height)
  failIf (computedRoot ≠ coinbaseRoot)
    (s!"connect_block: irx1 root mismatch at height {height} coinbase=" ++ encodeHex coinbaseRoot.bytes ++
      " computed=" ++ encodeHex computedRoot.bytes)

/-- Under the audit rules every receipt is in lane `A`. -/
def checkLane (height : Nat) (r : PoawxBlockReceipt) : Except String Unit :=
  failIf (auditHardeningActive E height ∧ r.lane ≠ 0x41)
    s!"connect_block: non-canonical receipt lane {r.lane} at height {height} (audit)"

def checkActiveReceipts (b : Block) (receipts : List PoawxBlockReceipt) (height : Nat)
    (previous : Option Block) : Except String Unit := do
  failIf (receipts = []) s!"connect_block: poawx receipts missing or empty at height {height}"
  checkReceiptRoot C E b receipts height
  checkAll (checkLane E height) receipts
  let parent ← orFail previous s!"connect_block: no parent block for poawx nonce derivation at height {height}"
  let parentHash := parent.header.hashForHeight C E (height - 1)
  checkEach (checkReceipt C E (assignmentSeedV1 C parentHash (height - 1))
    (effectivePuzzleDifficultyBits E (poawxBlockDifficultyBits E) height) height) receipts
  if phase20ProductionActive E height then validatePhase20ProductionBlock C E b receipts height parentHash
  else validatePoawxRewardSplitFromBlock E b receipts height

def validatePoawxBlockReceipts (b : Block) (height : Nat) (previous : Option Block) : Except String Unit := do
  failIf (networkKind E = .mainnet ∧ b.receipts.any (fun r => r.delegation.isSome))
    s!"connect_block: delegated (mode-1) poawx receipts rejected on mainnet at height {height}"
  checkWhen (poawxConsensusActive E height) (checkActiveReceipts C E b b.receipts height previous)

end IriumConsensus
