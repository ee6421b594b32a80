import IriumConsensus.BlockWire

namespace IriumConsensus

open ByteCodec Checks

inductive MessageType
  | unknown | handshake | ping | pong | getPeers | peers | getBlocks | block | getHeaders | headers | tx | mempool
  | sybilChallenge | sybilProof | relayAddress | inv | getData | uptimeChallenge | uptimeProof | proofGossip
  | offerTakeNotification | disputeRaisedNotification | disputeEvidenceNotification | disputeResolvedNotification
  | disputeEscalatedNotification | offerBroadcast | poawxRolePrecommit | poawxRoleReveal | poawxCandidateAdmission
  | poawxFinalityVote | poawxProposerRegistration | disconnect
  deriving DecidableEq, Repr

/-- The types in the order of their bytes, which count from 0; only the last one is apart. -/
def MessageType.numbered : List MessageType :=
  [.unknown, .handshake, .ping, .pong, .getPeers, .peers, .getBlocks, .block, .getHeaders, .headers, .tx, .mempool,
    .sybilChallenge, .sybilProof, .relayAddress, .inv, .getData, .uptimeChallenge, .uptimeProof, .proofGossip,
    .offerTakeNotification, .disputeRaisedNotification, .disputeEvidenceNotification, .disputeResolvedNotification,
    .disputeEscalatedNotification, .offerBroadcast, .poawxRolePrecommit, .poawxRoleReveal, .poawxCandidateAdmission,
    .poawxFinalityVote, .poawxProposerRegistration]

def MessageType.toByte (t : MessageType) : UInt8 :=
  if t = .disconnect then 99 else UInt8.ofNat (MessageType.numbered.idxOf t)

def MessageType.ofByte (b : UInt8) : MessageType :=
  if b = 99 then .disconnect else (MessageType.numbered[b.toNat]?).getD .unknown

theorem MessageType.ofByte_toByte (t : MessageType) : MessageType.ofByte t.toByte = t := by cases t <;> decide

def protocolVersion : UInt8 := 1
def maxMessageSize : Nat := 32 * 1024 * 1024
def maxBlockSize : Nat := 4 * 1024 * 1024

structure Message where
  msgType : MessageType
  payload : Bytes
  deriving DecidableEq, Repr

namespace Message

/-- The length is written modulo `2 ^ 32`, most significant byte first. -/
def serialize (m : Message) : Bytes :=
  [protocolVersion, m.msgType.toByte] ++ (beVec 4 m.payload.length).bytes ++ m.payload

def reader : Reader Message := do
  let version ← readU8 "Message too short"
  rejectIf (version ≠ protocolVersion) s!"Unsupported protocol version: {version}"
  let typeByte ← readU8 "Message too short"
  let length ← readVec 4 "Message too short"
  rejectIf (maxMessageSize < length.toNat) "Message too large"
  let payload ← readBytes length.toNat "Incomplete message"
  return ⟨MessageType.ofByte typeByte, payload⟩

def deserialize (data : Bytes) : Except String Message :=
  if data.length < 6 then .error "Message too short" else (reader data).map Prod.fst

end Message

namespace BlockPayload

def toMessage (blockData : Bytes) : Message := ⟨.block, blockData⟩

def fromMessage (m : Message) : Except String Bytes := do
  failIf (m.msgType ≠ .block) "Not a block message"
  failIf (maxBlockSize < m.payload.length % 2 ^ 32) "Block payload too large"
  return m.payload

end BlockPayload

def receiveBlock (data : Bytes) : Except String Bytes := Message.deserialize data >>= BlockPayload.fromMessage

def sendBlock (blockData : Bytes) : Bytes := (BlockPayload.toMessage blockData).serialize

theorem Message.reader_reads {m : Message} (h : m.payload.length ≤ maxMessageSize) :
    Reads Message.reader m.serialize m := by
  have hmax : maxMessageSize < 256 ^ 4 := by decide
  have hn : (beVec 4 m.payload.length).toNat = m.payload.length := by
    rw [ByteVec.toNat, beVec, beNat_reverse, leNat_leList, Nat.mod_eq_of_lt (by omega)]
  have hpayload := readBytes_reads m.payload "Incomplete message"
  rw [← hn] at hpayload
  rw [Message.serialize, List.append_assoc]
  refine (readU8_reads _ _).bind ((rejectIf_reads (not_not.mpr rfl) _).bind ((readU8_reads _ _).bind ?_))
  refine (readVec_reads _ _).bind ((rejectIf_reads (by omega) _).bind ?_)
  rw [MessageType.ofByte_toByte]
  exact hpayload.map fun payload => { m with payload }

theorem Message.reader_yields : Yields Message.reader fun m => m.payload.length < 2 ^ 32 := by
  refine yields_bind fun _ => yields_bind fun _ => yields_bind fun _ => yields_bind fun length => yields_bind fun _ => ?_
  refine (readBytes_yields length.toNat _).bind fun payload hpayload => yields_pure ?_
  have hlen := leNat_lt length.bytes.reverse
  rw [← beNat_reverse, List.reverse_reverse, List.length_reverse, length.length_eq] at hlen
  exact hpayload.trans_lt hlen

theorem receiveBlock_sendBlock (w : Bytes) : receiveBlock (sendBlock w) = .ok w ↔ w.length ≤ maxBlockSize := by
  have hmax : maxBlockSize ≤ maxMessageSize := by decide
  simp only [receiveBlock, sendBlock, BlockPayload.fromMessage, bind_eq_ok, exists_unit, failIf_eq_ok, pure_eq_ok,
    not_lt, not_not]
  constructor
  · rintro ⟨m, hm, -, hle, rfl⟩
    unfold Message.deserialize at hm
    split_ifs at hm
    have hlt := Message.reader_yields.decode hm
    rwa [Nat.mod_eq_of_lt hlt] at hle
  · intro hle
    have hread := Message.reader_reads (m := BlockPayload.toMessage w) (hle.trans hmax)
    refine ⟨BlockPayload.toMessage w, ?_, rfl, ?_, rfl⟩
    · rw [Message.deserialize, if_neg (by simp [Message.serialize])]
      exact hread.decode
    · exact (Nat.mod_le _ _).trans hle

def varintSize (n : Nat) : Nat :=
  if n < 0xfd then 1 else if n ≤ 0xffff then 3 else if n ≤ 0xffffffff then 5 else 9

def TxInput.wireSize (inp : TxInput) : Nat := 42 + inp.scriptSig.length

def TxOutput.wireSize (out : TxOutput) : Nat := 8 + varintSize out.scriptPubkey.length + out.scriptPubkey.length

def Transaction.wireSize (tx : Transaction) : Nat :=
  10 + (tx.inputs.map TxInput.wireSize).sum + (tx.outputs.map TxOutput.wireSize).sum

def branchSize (branch : List Hash32) : Nat := varintSize branch.length + 32 * branch.length + 4

def AuxPow.wireSize (ap : AuxPow) : Nat :=
  varintSize ap.coinbaseTxn.length + ap.coinbaseTxn.length + 32 + branchSize ap.coinbaseBranch +
    branchSize ap.blockchainBranch + 80

def PoawxBlockReceipt.sizeV2 (r : PoawxBlockReceipt) : Nat := if r.delegation.isSome then 393 else 167

def PoawxBlockReceipt.sizeV3 (r : PoawxBlockReceipt) : Nat :=
  r.sizeV2 + 1 + (r.phase20Ext.map fun e => 4 + e.serialize.length).getD 0

def receiptsSize (receipts : List PoawxBlockReceipt) : Nat :=
  if receipts = [] then 0
  else if receipts.any fun r => r.phase20Ext.isSome then 9 + (receipts.map PoawxBlockReceipt.sizeV3).sum
  else if receipts.any fun r => r.delegation.isSome then 9 + (receipts.map PoawxBlockReceipt.sizeV2).sum
  else 9 + 166 * receipts.length

/-- What a block takes on the wire, from the numbers and the lengths of its parts. -/
def Block.wireSize (b : Block) : Nat :=
  80 + (b.auxpow.map AuxPow.wireSize).getD 0 + (b.transactions.map Transaction.wireSize).sum + receiptsSize b.receipts

theorem writeVarint_length (n : Nat) : (writeVarint n).length = varintSize n := by
  unfold writeVarint varintSize
  split_ifs <;> simp

theorem flatMap_length_of {α : Type} {enc : α → Bytes} {size : α → Nat} (h : ∀ a, (enc a).length = size a)
    (xs : List α) : (xs.flatMap enc).length = (xs.map size).sum := by
  simp [List.length_flatMap, h]

theorem TxInput.serialize_length (inp : TxInput) : inp.serialize.length = inp.wireSize := by
  simp [TxInput.serialize, TxInput.wireSize, le32]
  omega

theorem TxOutput.serialize_length (out : TxOutput) : out.serialize.length = out.wireSize := by
  simp [TxOutput.serialize, TxOutput.wireSize, le64, writeVarint_length]
  omega

theorem Transaction.serialize_length (tx : Transaction) : tx.serialize.length = tx.wireSize := by
  have hin := flatMap_length_of TxInput.serialize_length tx.inputs
  have hout := flatMap_length_of TxOutput.serialize_length tx.outputs
  simp only [Transaction.serialize, Transaction.wireSize, List.length_append, hin, hout, le32, leList_length,
    List.length_singleton]
  omega

theorem AuxPow.serialize_length (ap : AuxPow) : ap.serialize.length = ap.wireSize := by
  have hbranch : ∀ branch : List Hash32, (branch.flatMap ByteVec.bytes).length = 32 * branch.length := by
    intro branch
    rw [flatMap_length_of fun v : Hash32 => v.length_bytes, List.map_const', List.sum_replicate_nat, Nat.mul_comm]
  simp only [AuxPow.serialize, AuxPow.wireSize, branchSize, List.length_append, writeVarint_length, hbranch, le32,
    leList_length, ByteVec.length_bytes]
  omega

theorem PoawxBlockReceipt.serializeV2_length (r : PoawxBlockReceipt) : r.serializeV2.length = r.sizeV2 := by
  cases hd : r.delegation with
  | none => simp [serializeV2, sizeV2, hd, serializeOption, r.serialize_length, wireSize]
  | some d =>
    simp [serializeV2, sizeV2, hd, serializeOption, r.serialize_length, d.serialize_length, wireSize, Delegation.wireSize]

theorem PoawxBlockReceipt.serializeV3_length (r : PoawxBlockReceipt) : r.serializeV3.length = r.sizeV3 := by
  cases he : r.phase20Ext with
  | none => simp [serializeV3, sizeV3, he, r.serializeV2_length]
  | some e =>
    simp [serializeV3, sizeV3, he, r.serializeV2_length]
    omega

theorem serializeReceiptSection_length (b : Block) : (serializeReceiptSection b).length = receiptsSize b.receipts := by
  have hsection : ∀ (magic : Bytes) (enc : PoawxBlockReceipt → Bytes) (size : PoawxBlockReceipt → Nat) receipts,
      magic.length = 8 → (∀ r, (enc r).length = size r) →
      (receiptSection magic enc receipts).length = 9 + (receipts.map size).sum := by
    intro magic enc size receipts hm hs
    simp only [receiptSection, List.length_append, flatMap_length_of hs, hm, List.length_singleton]
  unfold serializeReceiptSection Block.receipts receiptsSize
  cases b.poawxReceipts with
  | none => rfl
  | some receipts =>
    simp only [Option.getD_some]
    split_ifs
    · rfl
    · exact hsection _ _ _ _ rfl PoawxBlockReceipt.serializeV3_length
    · exact hsection _ _ _ _ rfl PoawxBlockReceipt.serializeV2_length
    · rw [hsection _ _ _ _ rfl PoawxBlockReceipt.serialize_length, List.map_const', List.sum_replicate_nat, Nat.mul_comm]
      rfl

theorem Block.serializeForHeight_length (E : NodeEnv) (b : Block) (height : Nat) :
    (b.serializeForHeight E height).length = b.wireSize := by
  have hheader : (b.header.serializeForHeight E height).length = 80 := by
    simp [BlockHeader.serializeForHeight, le32]
  have haux : (serializeOption AuxPow.serialize b.auxpow).length = (b.auxpow.map AuxPow.wireSize).getD 0 := by
    cases b.auxpow with
    | none => rfl
    | some ap => exact ap.serialize_length
  rw [Block.serializeForHeight, List.length_append, List.length_append, List.length_append, hheader, haux,
    flatMap_length_of Transaction.serialize_length, serializeReceiptSection_length, Block.wireSize]

theorem Block.receiptsSize_le (b : Block) : receiptsSize b.receipts ≤ b.wireSize := Nat.le_add_left _ _

namespace ChainState

/-- An accepted block is within the limit of the receiving side, and so arrives, exactly if its parts add up to no more;
no rule for blocks bounds their number. -/
theorem accepted_block_deliverable (C : Crypto) (E : NodeEnv) : ∀ s b, (∃ A s', connectBlock C E A b s = (.ok (), s')) →
    ((b.serializeForHeight E s.height).length ≤ maxBlockSize ↔ b.wireSize ≤ maxBlockSize) ∧
    (receiveBlock (sendBlock (b.serializeForHeight E s.height)) = .ok (b.serializeForHeight E s.height) ↔
      b.wireSize ≤ maxBlockSize) := by
  intro s b _
  rw [receiveBlock_sendBlock, Block.serializeForHeight_length]
  exact ⟨Iff.rfl, Iff.rfl⟩

theorem mixed_block_delivered :
    ∃ s, new shaCrypto devnetNode quietAmbient devnetParams = some s ∧
      (connectBlock shaCrypto devnetNode quietAmbient mixedBlock s).1 = .ok () ∧
      receiveBlock (sendBlock (mixedBlock.serializeForHeight devnetNode s.height)) =
        .ok (mixedBlock.serializeForHeight devnetNode s.height) := by
  obtain ⟨s, hs, hok⟩ := exists_of_any (new shaCrypto devnetNode quietAmbient devnetParams)
    (fun s => (connectBlock shaCrypto devnetNode quietAmbient mixedBlock s).1 = .ok ()) (by decide +kernel)
  have hsize : mixedBlock.wireSize ≤ maxBlockSize := by decide +kernel
  exact ⟨s, hs, hok, (accepted_block_deliverable _ _ s mixedBlock ⟨_, _, Prod.ext hok rfl⟩).2.mpr hsize⟩

def crowdedExt : Phase20ReceiptExt :=
  { blankExt with
    finalityProof := some ⟨1, 2, 4, ByteVec.zero 32, ByteVec.zero 32, 0, 2, 3, List.replicate 256 commitVote⟩ }

def crowdedBlock : Block := withReceipts (List.replicate 100 (receiptWith crowdedExt))

theorem receiptsSize_replicate {n : Nat} (hn : n ≠ 0) (ext : Phase20ReceiptExt) :
    receiptsSize (List.replicate n (receiptWith ext)) = 9 + n * (172 + ext.serialize.length) := by
  have hsize : (receiptWith ext).sizeV3 = 172 + ext.serialize.length := by
    simp [PoawxBlockReceipt.sizeV3, PoawxBlockReceipt.sizeV2, receiptWith]
    omega
  rw [receiptsSize, if_neg (by simpa using hn), if_pos (by simp [receiptWith, hn]), List.map_replicate,
    List.sum_replicate_nat, hsize]

theorem crowdedExt_length : 256 * finalityVoteWire ≤ crowdedExt.serialize.length := by
  have hvotes := FinalityVoteV1.fixed.flatMap_length (List.replicate 256 commitVote)
  rw [List.length_replicate] at hvotes
  simp only [crowdedExt, Phase20ReceiptExt.serialize, Phase20ReceiptExt.serializeSections, serializeOption,
    FinalityProofV1.serialize, List.length_append, hvotes]
  omega

theorem crowdedBlock_fits : crowdedBlock.LengthsFit 1 := by
  have hfits : crowdedExt.Fits := by decide +kernel
  have htxs : ∀ tx ∈ crowdedBlock.transactions, tx.LengthsFit := by decide
  refine ⟨rfl, (fun ap hap => by cases hap), htxs, ?_, ?_⟩
  · rintro receipts ⟨⟩
    refine ⟨by rw [List.length_replicate]; decide, fun r hr e he => ?_⟩
    rw [List.eq_of_mem_replicate hr] at he
    cases he
    exact hfits
  · rintro receipts ⟨⟩
    exact List.cons_ne_nil _ _

theorem crowded_block_undeliverable :
    ∃ s, new shaCrypto devnetNode quietAmbient devnetParams = some s ∧ s.height = 1 ∧
      (connectBlock shaCrypto devnetNode quietAmbient crowdedBlock s).1 = .ok () ∧ crowdedBlock.LengthsFit s.height ∧
      maxBlockSize < (crowdedBlock.serializeForHeight devnetNode s.height).length := by
  obtain ⟨s, hs, hheight, hok⟩ := exists_of_any (new shaCrypto devnetNode quietAmbient devnetParams)
    (fun s => s.height = 1 ∧
      (connectBlock shaCrypto devnetNode quietAmbient crowdedBlock s).1 = .ok ()) (by decide +kernel)
  refine ⟨s, hs, hheight, hok, hheight ▸ crowdedBlock_fits, ?_⟩
  have hreceipts := receiptsSize_replicate (n := 100) (by decide) crowdedExt
  have hext := crowdedExt_length
  rw [Block.serializeForHeight_length]
  refine lt_of_lt_of_le ?_ crowdedBlock.receiptsSize_le
  rw [show crowdedBlock.receipts = List.replicate 100 (receiptWith crowdedExt) from rfl, hreceipts]
  generalize crowdedExt.serialize.length = len at hext
  simp only [finalityVoteWire] at hext
  simp only [maxBlockSize]
  omega

end ChainState

end IriumConsensus
