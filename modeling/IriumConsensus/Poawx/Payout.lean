import IriumConsensus.Block
import IriumConsensus.Script

namespace IriumConsensus

open ByteCodec Checks

def PerRole.zip {α β : Type} (a : PerRole α) (b : PerRole β) : PerRole (α × β) :=
  ⟨(a.compute, b.compute), (a.verify, b.verify), (a.support, b.support)⟩

def roleIds : PerRole UInt8 := ⟨roleComputeContributor, roleVerifyContributor, roleSupportContributor⟩

def multiRoleAmounts (totalReward : Nat) : Nat × PerRole Nat :=
  let bps (b : Nat) := totalReward * b / 10000
  (bps 5500 + (totalReward - bps 5500 - bps 2200 - bps 1300 - bps 1000), ⟨bps 2200, bps 1300, bps 1000⟩)

def thirdPartyFeeCapBps : UInt16 := 200

def validateFeeTerms (feeBps : UInt16) (feePkh : Pkh) (thirdPartyMode : Bool) : Except String Unit :=
  if feeBps = 0 then .ok ()
  else do
    failIf (thirdPartyMode = false) "fee_bps > 0 requires explicit third-party pool mode"
    failIf (thirdPartyFeeCapBps < feeBps)
      s!"fee_bps {feeBps} exceeds third-party cap {thirdPartyFeeCapBps} (2.00%)"
    failIf (feePkh = ByteVec.zero 20) "fee_bps > 0 requires a fee_pkh"

def applyFee (gross : Nat) (feeBps : UInt16) : Nat × Nat :=
  (gross - gross * feeBps.toNat / 10000, gross * feeBps.toNat / 10000)

def payoutShares (totalReward : Nat) : Option (PerRole Pkh) → Nat × List (Pkh × Nat)
  | some role => ((multiRoleAmounts totalReward).1, (role.zip (multiRoleAmounts totalReward).2).toList)
  | none => (totalReward, [])

def canonicalPayouts (primaryPkh : Pkh) (totalReward : Nat) (role : Option (PerRole Pkh))
    (fee : Option (UInt16 × Pkh)) : List (Pkh × Nat) :=
  let (gross, roleOuts) := payoutShares totalReward role
  match fee with
  | some (bps, feePkh) =>
    if 0 < bps then (primaryPkh, (applyFee gross bps).1) :: roleOuts ++ [(feePkh, (applyFee gross bps).2)]
    else (primaryPkh, gross) :: roleOuts
  | none => (primaryPkh, gross) :: roleOuts

/-- The outputs that pay a key hash; another output may not carry value. -/
def collectPayouts : List TxOutput → Except String (List (Pkh × Nat))
  | [] => .ok []
  | out :: rest =>
    match parseP2pkhScript out.scriptPubkey with
    | some pkh => do
      let payouts ← collectPayouts rest
      return (pkh, out.value.toNat) :: payouts
    | none => do
      failIf (out.value ≠ 0) "poawx coinbase: value-bearing non-p2pkh output (hidden fee?)"
      collectPayouts rest

def checkPayout (i : Nat) (actual expected : Pkh × Nat) : Except String Unit := do
  failIf (actual.1 ≠ expected.1) s!"poawx coinbase: output {i} pkh/order mismatch"
  failIf (actual.2 ≠ expected.2) s!"poawx coinbase: output {i} amount {actual.2} != expected {expected.2}"

def validatePoawxCoinbasePayout (outputs : List TxOutput) (primaryPkh : Pkh) (totalReward : Nat)
    (role : Option (PerRole Pkh)) (fee : Option (UInt16 × Pkh)) : Except String Unit := do
  let expected := canonicalPayouts primaryPkh totalReward role fee
  let payouts ← collectPayouts outputs
  failIf (payouts.length ≠ expected.length)
    s!"poawx coinbase: expected {expected.length} payout outputs, found {payouts.length}"
  checkEach (fun i p => checkPayout i p.1 p.2) (payouts.zip expected)
  let sum := (expected.map Prod.snd).sum
  failIf (sum ≠ totalReward) s!"poawx coinbase: payout sum {sum} != total reward {totalReward}"

inductive PoawxLane where
  | cpuFriendly
  | gpuParallel
  | asicStreaming
  | universalFallback
  deriving DecidableEq, Repr

def PoawxLane.id : PoawxLane → UInt8
  | .cpuFriendly => 0
  | .gpuParallel => 1
  | .asicStreaming => 2
  | .universalFallback => 255

def PoawxLane.fromId (b : UInt8) : Option PoawxLane :=
  if b = 0 then some .cpuFriendly
  else if b = 1 then some .gpuParallel
  else if b = 2 then some .asicStreaming
  else if b = 255 then some .universalFallback
  else none

variable (C : Crypto) (E : NodeEnv)

def assignLane (networkId : UInt8) (height : Nat) (prevHash : Hash32) (roleId : UInt8) (slotIndex : UInt32) :
    PoawxLane :=
  let d := C.sha256 (asciiBytes "IRIUM_POAWX_FAIRNESS_V1" ++ [networkId] ++ leList 8 height ++ prevHash.bytes ++
    [roleId] ++ le32 slotIndex)
  let v := leNat (d.bytes.take 8) % 10000
  if v < 3400 then .cpuFriendly else if v < 6700 then .gpuParallel else .asicStreaming

def PoawxRoleClaim.computeDigest (c : PoawxRoleClaim) (networkId : UInt8) (height : Nat) (prevHash : Hash32) :
    Hash32 :=
  C.sha256 (asciiBytes "IRIUM_POAWX_ROLE_CLAIM_V1" ++ [networkId] ++ leList 8 height ++ prevHash.bytes ++
    [c.roleId, c.laneId] ++ c.solverPkh.bytes ++ c.nonce.bytes ++ c.secret.bytes)

def validateRoleClaim (claim : PoawxRoleClaim) (networkId : UInt8) (height : Nat) (prevHash : Hash32)
    (slotIndex : UInt32) : Except String Unit := do
  failIf (claim.roleId ∉ roleIds.toList) s!"role claim: unknown role id {claim.roleId}"
  let lane ← orFail (PoawxLane.fromId claim.laneId) s!"role claim: unknown lane id {claim.laneId}"
  failIf (lane = .universalFallback) "role claim: lane is not a production fairness lane"
  failIf (claim.computeDigest C networkId height prevHash ≠ claim.claimDigest)
    "role claim: digest does not verify from revealed fields"
  let assigned := assignLane C networkId height prevHash claim.roleId slotIndex
  failIf (assigned ≠ lane)
    s!"role claim: lane {claim.laneId} != assigned lane {assigned.id} for role {claim.roleId} slot {slotIndex}"

def checkClaim (networkId : UInt8) (height : Nat) (prevHash : Hash32) (p : UInt8 × PoawxRoleClaim) :
    Except String Unit := do
  failIf (p.2.roleId ≠ p.1) s!"phase20: claim role_id {p.2.roleId} != expected {p.1}"
  validateRoleClaim C p.2 networkId height prevHash 0

def feeTerms (feeBps : UInt16) (feePkh : Pkh) : Option (UInt16 × Pkh) :=
  if 0 < feeBps then some (feeBps, feePkh) else none

def validatePhase20ProductionPayout (outputs : List TxOutput) (primaryPkh : Pkh) (totalReward height : Nat)
    (prevHash : Hash32) (networkId : UInt8) (ext : Phase20ReceiptExt) (thirdPartyMode : Bool) :
    Except String Unit := do
  checkAll (checkClaim C networkId height prevHash) (roleIds.zip ext.claims).toList
  failIf (ext.roleReward.compute ≠ ext.claims.compute.solverPkh ∨
      ext.roleReward.verify ≠ ext.claims.verify.solverPkh ∨
      ext.roleReward.support ≠ ext.claims.support.solverPkh)
    "phase20: RoleReward pkh does not match validated role claim"
  validateFeeTerms ext.feeBps ext.feePkh thirdPartyMode
  validatePoawxCoinbasePayout outputs primaryPkh totalReward (some ext.roleReward) (feeTerms ext.feeBps ext.feePkh)

section

variable (height : Nat)

def poawxDelegationActive : Bool :=
  if networkKind E = .mainnet then false else activeFrom (E.activationHeight .delegation) height

def thirdPartyFeeActive : Bool :=
  if networkKind E = .mainnet then false else activeFrom (E.activationHeight .thirdPartyFee) height

def thirdPartyPoolModeEnabled : Bool := if networkKind E = .mainnet then false else E.thirdPartyPoolMode

def multiRoleRewardActive : Bool := poawxGate E .multiRoleReward height
def fairnessMatrixActive : Bool := poawxGate E .fairnessMatrix height
def hiddenPrecommitActive : Bool := poawxGate E .hiddenPrecommit height
def phase20ProductionActive : Bool := multiRoleRewardActive E height && fairnessMatrixActive E height

end

def rolePrecommitCommitment (secret nonce : Hash32) : Hash32 :=
  C.sha256 (asciiBytes "IRIUM_POAWX_ROLE_PRECOMMIT_COMMIT_V1" ++ secret.bytes ++ nonce.bytes)

def rolePrecommitLeafForClaim (networkId : UInt8) (targetHeight : Nat) (claim : PoawxRoleClaim) :
    Except String Hash32 := do
  let commitment ← orFail claim.commitmentHash "role precommit: claim missing commitment_hash"
  failIf (rolePrecommitCommitment C claim.secret claim.nonce ≠ commitment)
    "role precommit: commitment_hash != H(secret||nonce) (mutated reveal)"
  return C.sha256 (asciiBytes "IRIUM_POAWX_ROLE_PRECOMMIT_V1" ++ [networkId] ++ leList 8 targetHeight ++
    [claim.roleId] ++ claim.solverPkh.bytes ++ commitment.bytes)

def rolePrecommitRoot (leaves : List Hash32) : Hash32 :=
  C.sha256 ((sortByKey ByteVec.toNat leaves).flatMap ByteVec.bytes)

def checkPrecommit (height : Nat) (networkId : UInt8) (i : Nat) (r : PoawxBlockReceipt) : Except String Unit := do
  let ext ← orFail r.phase20Ext s!"hidden precommit: receipt[{i}] missing extension at height {height}"
  let ownRoot ← orFail ext.precommitRoot
    s!"hidden precommit: receipt[{i}] missing precommit_root at height {height}"
  let leaves ← ext.claims.toList.mapM (rolePrecommitLeafForClaim C networkId height)
  let root := rolePrecommitRoot C leaves
  failIf (root ≠ ownRoot)
    (s!"hidden precommit: receipt[{i}] role-claim leaves root " ++ encodeHex root.bytes ++
      " != own committed root " ++ encodeHex ownRoot.bytes ++ s!" at height {height}")

def validateHiddenPrecommit (receipts : List PoawxBlockReceipt) (height : Nat) (networkId : UInt8) :
    Except String Unit :=
  if E.activationHeight .hiddenPrecommit = some height then .ok ()
  else checkEach (checkPrecommit C height networkId) receipts

def checkTicketProofs (height : Nat) (prevHash : Hash32) (networkId : UInt8) (i : Nat) (r : PoawxBlockReceipt) :
    Except String Unit := do
  let ext ← orFail r.phase20Ext s!"phase20: ticket gate active but receipt[{i}] missing extension at height {height}"
  let proofs ← orFail ext.roleTicketProofs
    s!"phase20: ticket gate active but receipt[{i}] missing ticket proofs at height {height}"
  checkAll (fun p : UInt8 × Pkh × TicketProof =>
      (p.2.2.validate C E networkId height prevHash p.1 p.2.1 (effectiveSybilBits E)
        (penaltyStateEnforced E height)).mapError
          (s!"phase20: receipt[{i}] role {p.1} ticket proof invalid: " ++ ·))
    (roleIds.zip (ext.roleReward.zip proofs)).toList

def validatePhase20TicketProofs (receipts : List PoawxBlockReceipt) (height : Nat) (prevHash : Hash32)
    (networkId : UInt8) : Except String Unit :=
  checkEach (checkTicketProofs C E height prevHash networkId) receipts

/-- The fee terms of a delegated receipt are those its miner signed. -/
def checkProductionReceipt (coinbase : Transaction) (height : Nat) (prevHash : Hash32) (i : Nat)
    (r : PoawxBlockReceipt) : Except String Unit := do
  let ext ← orFail r.phase20Ext
    s!"phase20: production active but receipt[{i}] missing extension at height {height}"
  failIf (r.delegation.any (fun d => ext.feeBps ≠ d.feeBps ∨ ext.feePkh ≠ d.feePkh))
    s!"phase20: receipt[{i}] extension fee terms != signed delegation fee terms at height {height}"
  validatePhase20ProductionPayout C coinbase.outputs r.workerPkh (blockReward E height) height prevHash
    (networkIdByte E) ext (thirdPartyFeeActive E height && thirdPartyPoolModeEnabled E)

def validatePhase20ProductionBlock (b : Block) (receipts : List PoawxBlockReceipt) (height : Nat)
    (prevHash : Hash32) : Except String Unit := do
  let coinbase ← orFail b.transactions.head? "phase20: no coinbase for production payout check"
  checkEach (checkProductionReceipt C E coinbase height prevHash) receipts
  checkWhen (hiddenPrecommitActive E height) (validateHiddenPrecommit C E receipts height (networkIdByte E))
  checkWhen (ticketsEnforced E height)
    (validatePhase20TicketProofs C E receipts height prevHash (networkIdByte E))

def checkWorkerPaid (coinbase : Transaction) (height : Nat) (receipts : List PoawxBlockReceipt) (pkh : Pkh) :
    Except String Unit :=
  let workerDue := blockReward E height * 100 / 1000
  let count := (receipts.filter fun r => r.workerPkh = pkh).length
  let required := min (workerDue * count) u64Max
  let paid := ((coinbase.outputs.filter fun out => out.scriptPubkey = p2pkhScript pkh).map
    fun out => out.value.toNat).sum % 2 ^ 64
  failIf (paid < required)
    ("connect_block: worker " ++ encodeHex pkh.bytes ++
      s!" underpaid: paid {paid} < required {required} ({count} receipt(s) x {workerDue})")

def validatePoawxRewardSplitFromBlock (b : Block) (receipts : List PoawxBlockReceipt) (height : Nat) :
    Except String Unit :=
  if receipts = [] then .ok ()
  else do
    let coinbase ← orFail b.transactions.head? "connect_block: no coinbase for reward split check"
    checkAll (checkWorkerPaid E coinbase height receipts) (receipts.map PoawxBlockReceipt.workerPkh).dedup

end IriumConsensus
