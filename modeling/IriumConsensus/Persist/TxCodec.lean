import IriumConsensus.Lib.Codec
import IriumConsensus.AuxPow

namespace IriumConsensus

open ByteCodec

/-- A shorter previous txid is filled up with zeros in front; a longer one stops the node. -/
def alignTxid (raw : Bytes) : Reader Hash32 :=
  if h : raw.length ≤ 32 then
    return ⟨List.replicate (32 - raw.length) 0 ++ raw, by simp; omega⟩
  else throw "attempt to subtract with overflow"

def readCompactInput : Reader TxInput := do
  let prevLen ← readLen 1 eofError
  let prevTxidBytes ← readBytes prevLen eofError
  let prevTxid ← alignTxid prevTxidBytes
  let prevIndex ← readU32 eofError
  let scriptSigLen ← readLen 1 eofError
  let scriptSig ← readBytes scriptSigLen eofError
  let sequence ← readU32 eofError
  return ⟨prevTxid, prevIndex, scriptSig, sequence⟩

def readCompactOutput : Reader TxOutput := do
  let value ← readU64 eofError
  let scriptLen ← readVarint "varint EOF"
  let scriptPubkey ← readBytes scriptLen eofError
  return ⟨value, scriptPubkey⟩

def readCompactTx : Reader Transaction := do
  let version ← readU32 eofError
  let inputCount ← readLen 1 eofError
  let inputs ← readMany readCompactInput inputCount
  let outputCount ← readLen 1 eofError
  let outputs ← readMany readCompactOutput outputCount
  let locktime ← readU32 eofError
  return ⟨version, inputs, outputs, locktime⟩

def decodeCompactTx (raw : Bytes) : Except String Transaction := (readCompactTx raw).map Prod.fst

structure Transaction.Fits (tx : Transaction) : Prop where
  inputs : tx.inputs.length < 256
  outputs : tx.outputs.length < 256
  scriptSig : ∀ inp ∈ tx.inputs, inp.scriptSig.length < 256
  scriptPubkey : ∀ out ∈ tx.outputs, out.scriptPubkey.length < 2 ^ 64

instance (tx : Transaction) : Decidable tx.Fits :=
  decidable_of_iff (_ ∧ _ ∧ _ ∧ _)
    ⟨fun h => ⟨h.1, h.2.1, h.2.2.1, h.2.2.2⟩, fun h => ⟨h.inputs, h.outputs, h.scriptSig, h.scriptPubkey⟩⟩

theorem alignTxid_reads (txid : Hash32) : Reads (alignTxid txid.bytes) [] txid := by
  have hlen : txid.bytes.length = 32 := txid.length_eq
  simp only [alignTxid, hlen, le_refl, ↓reduceDIte, Nat.sub_self, List.replicate_zero, List.nil_append]
  exact reads_pure txid

theorem readCompactInput_reads {inp : TxInput} (h : inp.scriptSig.length < 256) :
    Reads readCompactInput inp.serialize inp := by
  have htxid := readBytes_reads inp.prevTxid.bytes eofError
  have hscript := readLen_reads (w := 1) h eofError
  rw [TxInput.serialize, inp.prevTxid.length_bytes] at *
  simp only [List.append_assoc]
  refine (readLen_reads (w := 1) (by decide) eofError).bind (htxid.bind ?_)
  refine (alignTxid_reads inp.prevTxid).bind ((readU32_reads eofError inp.prevIndex).bind (hscript.bind ?_))
  exact (readBytes_reads inp.scriptSig eofError).bind ((readU32_reads eofError inp.sequence).map _)

theorem readCompactOutput_reads {out : TxOutput} (h : out.scriptPubkey.length < 2 ^ 64) :
    Reads readCompactOutput out.serialize out := by
  rw [TxOutput.serialize, List.append_assoc]
  refine (readU64_reads eofError out.value).bind ((readVarint_reads h "varint EOF").bind ?_)
  exact (readBytes_reads out.scriptPubkey eofError).map _

theorem readCompactTx_reads {tx : Transaction} (h : tx.Fits) : Reads readCompactTx tx.serialize tx := by
  have hin := readMany_reads fun inp hinp => readCompactInput_reads (h.scriptSig inp hinp)
  have hout := readMany_reads fun out hout => readCompactOutput_reads (h.scriptPubkey out hout)
  rw [Transaction.serialize]
  simp only [List.append_assoc]
  refine (readU32_reads eofError tx.version).bind ((readLen_reads (w := 1) h.inputs eofError).bind (hin.bind ?_))
  refine (readLen_reads (w := 1) h.outputs eofError).bind (hout.bind ?_)
  exact (readU32_reads eofError tx.locktime).map _

theorem readCompactInput_yields : Yields readCompactInput fun inp => inp.scriptSig.length < 256 := by
  refine yields_bind fun _ => yields_bind fun _ => yields_bind fun _ => yields_bind fun _ => ?_
  refine (readLen_yields 1 _).bind fun n hn => (readBytes_yields n _).bind fun script hscript => ?_
  refine yields_bind fun _ => yields_pure ?_
  rwa [hscript]

theorem readVarint_yields (err : String) : Yields (readVarint err) fun n => n < 2 ^ 64 := by
  refine yields_bind fun first => ?_
  split_ifs
  · exact yields_bind fun x => yields_pure x.toNat_lt
  · exact yields_bind fun x => yields_pure (x.toNat_lt.trans (by decide))
  · exact yields_bind fun x => yields_pure (x.toNat_lt.trans (by decide))
  · exact yields_pure (first.toNat_lt.trans (by decide))

theorem readCompactOutput_yields : Yields readCompactOutput fun out => out.scriptPubkey.length < 2 ^ 64 := by
  refine yields_bind fun _ => (readVarint_yields _).bind fun n hn => (readBytes_yields n _).bind fun script hscript => ?_
  exact yields_pure (hscript.trans_lt hn)

theorem readCompactTx_yields : Yields readCompactTx Transaction.Fits := by
  refine yields_bind fun _ => (readLen_yields 1 _).bind fun n hn => ?_
  refine (readCompactInput_yields.readMany n).bind fun inputs hin => (readLen_yields 1 _).bind fun m hm => ?_
  refine (readCompactOutput_yields.readMany m).bind fun outputs hout => yields_bind fun _ => yields_pure ?_
  exact ⟨hin.1.trans_lt hn, hout.1.trans_lt hm, hin.2, hout.2⟩

theorem decodeCompactTx_serialize_iff {tx : Transaction} : decodeCompactTx tx.serialize = .ok tx ↔ tx.Fits := by
  constructor
  · intro h
    exact readCompactTx_yields.decode h
  · intro h
    exact (readCompactTx_reads h).decode

def maxCoinbaseTxn : Nat := 1000000

namespace AuxPow

def serialize (ap : AuxPow) : Bytes :=
  writeVarint ap.coinbaseTxn.length ++ ap.coinbaseTxn ++ ap.parentHash.bytes ++
    writeVarint ap.coinbaseBranch.length ++ ap.coinbaseBranch.flatMap ByteVec.bytes ++ le32 ap.coinbaseBranchIndex ++
    writeVarint ap.blockchainBranch.length ++ ap.blockchainBranch.flatMap ByteVec.bytes ++
    le32 ap.blockchainBranchIndex ++ ap.parentHeader.bytes

def readBranch (what : String) : Reader (List Hash32) := do
  let count ← readVarint "unexpected EOF reading varint"
  rejectIf (maxBranchDepth < count) (what ++ " branch depth exceeds maximum")
  readMany (readVec 32 ("unexpected EOF reading " ++ what ++ " branch hash")) count

def reader : Reader AuxPow := do
  let coinbaseLen ← readVarint "unexpected EOF reading varint"
  rejectIf (maxCoinbaseTxn < coinbaseLen) "coinbase transaction too large"
  let coinbaseTxn ← readBytes coinbaseLen "unexpected EOF reading coinbase txn"
  let parentHash ← readVec 32 "unexpected EOF reading parent_hash"
  let coinbaseBranch ← readBranch "coinbase"
  let coinbaseBranchIndex ← readU32 "unexpected EOF reading coinbase_branch_index"
  let blockchainBranch ← readBranch "blockchain"
  let blockchainBranchIndex ← readU32 "unexpected EOF reading blockchain_branch_index"
  let parentHeader ← readVec 80 "unexpected EOF reading parent_header"
  return ⟨coinbaseTxn, parentHash, coinbaseBranch, coinbaseBranchIndex, blockchainBranch, blockchainBranchIndex,
    parentHeader⟩

def deserialize (raw : Bytes) : Except String AuxPow := (reader raw).map Prod.fst

structure Fits (ap : AuxPow) : Prop where
  coinbaseTxn : ap.coinbaseTxn.length ≤ maxCoinbaseTxn
  coinbaseBranch : ap.coinbaseBranch.length ≤ maxBranchDepth
  blockchainBranch : ap.blockchainBranch.length ≤ maxBranchDepth

instance (ap : AuxPow) : Decidable ap.Fits :=
  decidable_of_iff (_ ∧ _ ∧ _)
    ⟨fun h => ⟨h.1, h.2.1, h.2.2⟩, fun h => ⟨h.coinbaseTxn, h.coinbaseBranch, h.blockchainBranch⟩⟩

theorem readBranch_reads {branch : List Hash32} (h : branch.length ≤ maxBranchDepth) (what : String) :
    Reads (readBranch what) (writeVarint branch.length ++ branch.flatMap ByteVec.bytes) branch := by
  have hlen : branch.length < 2 ^ 64 := h.trans_lt (by decide)
  refine (readVarint_reads hlen _).bind ((rejectIf_reads (not_lt.mpr h) _).bind ?_)
  exact readMany_reads fun hash _ => readVec_reads _ hash

theorem readBranch_yields (what : String) :
    Yields (readBranch what) fun branch => branch.length ≤ maxBranchDepth := by
  refine yields_bind fun n => (rejectIf_yields _ _).bind fun _ hn => ?_
  exact ((yields_true _).readMany n).mono fun branch hbranch => hbranch.1.trans_le (not_lt.mp hn)

theorem reader_reads {ap : AuxPow} (h : ap.Fits) : Reads reader ap.serialize ap := by
  have hlen : ap.coinbaseTxn.length < 2 ^ 64 := h.coinbaseTxn.trans_lt (by decide)
  have hcoinbase := readBranch_reads h.coinbaseBranch "coinbase"
  have hblockchain := readBranch_reads h.blockchainBranch "blockchain"
  rw [serialize]
  simp only [List.append_assoc]
  refine (readVarint_reads hlen _).bind ((rejectIf_reads (not_lt.mpr h.coinbaseTxn) _).bind ?_)
  refine (readBytes_reads ap.coinbaseTxn _).bind ((readVec_reads _ ap.parentHash).bind ?_)
  rw [← List.append_assoc (writeVarint ap.coinbaseBranch.length)]
  refine hcoinbase.bind ((readU32_reads _ ap.coinbaseBranchIndex).bind ?_)
  rw [← List.append_assoc (writeVarint ap.blockchainBranch.length)]
  refine hblockchain.bind ((readU32_reads _ ap.blockchainBranchIndex).bind ?_)
  exact (readVec_reads _ ap.parentHeader).map _

theorem reader_yields : Yields reader Fits := by
  refine yields_bind fun n => (rejectIf_yields _ _).bind fun _ hn => (readBytes_yields n _).bind fun txn htxn => ?_
  refine yields_bind fun _ => (readBranch_yields _).bind fun coinbase hcoinbase => yields_bind fun _ => ?_
  refine (readBranch_yields _).bind fun blockchain hblockchain => yields_bind fun _ => yields_bind fun _ => ?_
  exact yields_pure ⟨htxn.trans_le (not_lt.mp hn), hcoinbase, hblockchain⟩

theorem deserialize_serialize_iff {ap : AuxPow} : deserialize ap.serialize = .ok ap ↔ ap.Fits := by
  constructor
  · intro h
    exact reader_yields.decode h
  · intro h
    exact (reader_reads h).decode

end AuxPow

end IriumConsensus
