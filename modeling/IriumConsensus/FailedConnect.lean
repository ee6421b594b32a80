import IriumConsensus.BatchScan
import IriumConsensus.Nodes

namespace IriumConsensus

open ByteCodec

namespace ChainState

structure ConsensusPart where
  ledger : Ledger
  poawx : PoawxState
  issued : Nat
  totalWork : Nat
  chain : List Block
  height : Nat
  finalizedHeight : Nat

def consensusPart (s : ChainState) : ConsensusPart :=
  ⟨s.toLedger, s.toPoawxState, s.issued, s.totalWork, s.chain, s.height, s.finalizedHeight⟩

/-- The block passes the rules that are checked before its transactions, and a header batch that
adds a header to its relay stands before the first check of a transaction or an output that fails. -/
def ReachesEffectiveBatch (C : Crypto) (E : NodeEnv) (A : Ambient) (s : ChainState) (b : Block) : Prop :=
  validateBlock C E A s b = .ok () ∧ scanBlock C E s.params s.height s.toLedger b = .marks

instance (C : Crypto) (E : NodeEnv) (A : Ambient) (s : ChainState) (b : Block) :
    Decidable (ReachesEffectiveBatch C E A s b) := inferInstanceAs (Decidable (_ ∧ _))

variable {C : Crypto} {E : NodeEnv} {A : Ambient} {s s' : ChainState} {b : Block}

theorem refused_unchanged {e : String} (hi : s.issued ≤ maxMoney) (h : connectBlock C E A b s = (.error e, s'))
    (hn : ¬ReachesEffectiveBatch C E A s b) : s' = s := by
  rcases connectBlock_error h with ⟨-, rfl⟩ | ⟨hv, L, rfl, hL | ⟨undo, hL, hover⟩⟩
  · rfl
  · rcases validateAndApplyTransactions_failure b _ _ _ e L hL with ⟨hmark, -⟩ | ⟨-, rfl⟩
    · exact absurd ⟨hv, hmark⟩ hn
    · rfl
  · have hle := (applyTransactions_ok hL).issued_le hi
    have hlt : maxMoney < u64Max := by decide
    omega

/-- A refused block leaves the state as it was, unless one of its header batches came first. -/
theorem refused_block_unchanged_iff {e : String} (hs : Reachable C E s)
    (h : connectBlock C E A b s = (.error e, s')) :
    s'.consensusPart = s.consensusPart ↔ ¬ReachesEffectiveBatch C E A s b := by
  have hi := hs.wellFormed.issued
  refine ⟨fun hpart hreach => ?_, fun hn => by rw [refused_unchanged hi h hn]⟩
  rcases connectBlock_error h with ⟨hv, -⟩ | ⟨-, L, rfl, hL | ⟨undo, hL, hover⟩⟩
  · rw [hreach.1] at hv
    cases hv
  · rcases validateAndApplyTransactions_failure b _ _ _ e L hL with ⟨-, hg⟩ | ⟨hmark, -⟩
    · exact hg.ne (congrArg ConsensusPart.ledger hpart)
    · exact hmark hreach.2
  · have hle := (applyTransactions_ok hL).issued_le hi
    have hlt : maxMoney < u64Max := by decide
    omega

def relayNode : NodeEnv :=
  { devnetNode with
    activationHeight := fun v => if v = .btcSpvRelay ∨ v = .coinbaseHeaderBatch then some 1 else none }

def bitcoinAnchor : Anchor where
  hash := leVec 32 0x000000000019d6689c085ae165831e934ff763ae46a2a6c172b3f1b60a8ce26f
  height := 0
  bits := 0x1d00ffff
  time := 1231006505

def bitcoinHeader : ForeignHeader where
  version := 1
  prevHash := bitcoinAnchor.hash
  merkleRoot := leVec 32 0x0e3e2357e806b6cdb1f70b54c3a3a17b6714ee1f0e68bebb44a74b1efd512098
  time := 1231469665
  bits := 0x1d00ffff
  nonce := 2573394689

def bitcoinHeaderHash : Hash32 := leVec 32 0x00000000839a8e6886ab5951d76f411475428afc90947ee320161bbf18eb6048

def relayParams : ChainParams := nodeParams relayNode (some bitcoinAnchor) none lockedGenesis

def greedyOutput : TxOutput := ⟨5000000001, p2pkhScript (ByteVec.zero 20)⟩

def greedyBlock : Block :=
  devnetBlock lockedGenesisHash (beVec 32 0x00dcd0da46a81566a28d4033684df9ac7c1725408d39f7d58f8073391ec39d27)
    1767583931 0 [coinbaseTx [] [greedyOutput]]

def greedyBlockWithBatch : Block :=
  devnetBlock lockedGenesisHash (beVec 32 0x22763d9f4731328b47b2e427d92c0899cf88e3716e9e863d8a83c7882f94ee0f)
    1767583931 3 [coinbaseTx [] [⟨0, [0xc4, 0x01, 0x01, 0x00] ++ bitcoinHeader.serialize⟩, greedyOutput]]

theorem greedy_block_leaves_no_trace :
    ∃ s s', Reachable shaCrypto relayNode s ∧
      connectBlock shaCrypto relayNode quietAmbient greedyBlock s =
        (.error "Coinbase transaction exceeds allowed reward", s') ∧
      s'.consensusPart = s.consensusPart := by
  obtain ⟨s, hs, herr, hreach⟩ := exists_reachable_of_runOf (C := shaCrypto) (E := relayNode)
    quietAmbient relayParams []
    (fun s => (connectBlock shaCrypto relayNode quietAmbient greedyBlock s).1 =
        .error "Coinbase transaction exceeds allowed reward" ∧
      ¬ReachesEffectiveBatch shaCrypto relayNode quietAmbient s greedyBlock) (by decide +kernel)
  have hc : connectBlock shaCrypto relayNode quietAmbient greedyBlock s = (.error _, _) := Prod.ext herr rfl
  exact ⟨s, _, hs, hc, (refused_block_unchanged_iff hs hc).mpr hreach⟩

theorem refused_batch_stays :
    ∃ s s', Reachable shaCrypto relayNode s ∧
      connectBlock shaCrypto relayNode quietAmbient greedyBlockWithBatch s =
        (.error "Coinbase transaction exceeds allowed reward", s') ∧
      bitcoinHeaderHash ∉ s.btc.relay.headers ∧ bitcoinHeaderHash ∈ s'.btc.relay.headers ∧
      s.btc.relay.tip = none ∧ s'.btc.relay.tip = some bitcoinHeaderHash := by
  obtain ⟨s, hs, herr, hbefore, hafter, htip, htip'⟩ := exists_reachable_of_runOf (C := shaCrypto) (E := relayNode)
    quietAmbient relayParams []
    (fun s =>
      let r := connectBlock shaCrypto relayNode quietAmbient greedyBlockWithBatch s
      r.1 = .error "Coinbase transaction exceeds allowed reward" ∧
        bitcoinHeaderHash ∉ s.btc.relay.headers ∧ bitcoinHeaderHash ∈ r.2.btc.relay.headers ∧
        s.btc.relay.tip = none ∧ r.2.btc.relay.tip = some bitcoinHeaderHash) (by decide +kernel)
  exact ⟨s, _, hs, Prod.ext herr rfl, hbefore, hafter, htip, htip'⟩

end ChainState

end IriumConsensus
