import IriumConsensus.Nodes
import IriumConsensus.WellFormed

namespace IriumConsensus

open ByteCodec FinMaps

variable {C : Crypto} {E : NodeEnv} {A : Ambient} {L L' : Ledger} {P : ChainParams} {height reward : Nat} {b : Block}
  {enforce : Bool} {m : Option Nat} {undo : BlockUndo}

/-- An applied block overwrites an output only if it spends it as well. -/
def KeepsOverwritten (C : Crypto) (height : Nat) (utxos : FinMap OutPoint UtxoEntry) (b : Block) : Prop :=
  ∀ op ∈ (b.created C height).map Prod.fst, op ∈ utxos → op ∈ b.spentOutpoints

instance (C : Crypto) (height : Nat) (utxos : FinMap OutPoint UtxoEntry) (b : Block) :
    Decidable (KeepsOverwritten C height utxos b) :=
  inferInstanceAs (Decidable (∀ op ∈ (b.created C height).map Prod.fst, op ∈ utxos → op ∈ b.spentOutpoints))

theorem relay_undo {Lr : Ledger} {updates : RelayUpdates} (hm : RelaysMoved L updates Lr) (hk : L.SameKeys)
    (chain : ForeignChain) :
    ((updates.get chain).map fun u => undoRelayUpdate u (Lr.relay chain)).getD (Lr.relay chain) =
      L.relay chain := by
  cases hu : updates.get chain with
  | none => exact hm.unmoved chain hu
  | some u => exact (hm.moved chain u hu).undo (hk chain)

theorem union_sdiff_unclaimed {claimed : Finset ForeignOutpoint} {added : List ForeignOutpoint}
    (h : ∀ op ∈ added, op ∉ claimed) : (claimed ∪ added.toFinset) \ added.toFinset = claimed := by
  rw [Finset.union_sdiff_right, Finset.sdiff_eq_self_iff_disjoint, Finset.disjoint_right]
  intro op hop
  exact h op (List.mem_toFinset.mp hop)

theorem BlockApplied.spent_known (h : BlockApplied C E P height b reward enforce m L undo L') :
    ∀ op ∈ b.spentOutpoints, op ∈ L.utxos := by
  cases h with
  | mk htxs _ hacc _ _ _ _ _ =>
    intro op hop
    rw [Block.spentOutpoints, htxs, List.tail_cons] at hop
    obtain ⟨entry, -, hs⟩ := forall₂_left_mem hacc.spendable hop
    exact Finmap.mem_of_lookup_eq_some hs.known

/-- The undo data of a block takes the ledger back, unless an output was overwritten for good. -/
theorem BlockApplied.revert_eq_iff (h : BlockApplied C E P height b reward enforce m L undo L') (hk : L.SameKeys) :
    L'.revert undo = L ↔ KeepsOverwritten C height L.utxos b := by
  have hspent := h.spent_known
  cases h with
  | @mk coinbase txs acc entries updates Lr htxs _ hacc hm _ _ _ _ =>
    have hseen : acc.seen = b.spentOutpoints := by
      rw [hacc.seen_eq, Block.spentOutpoints, htxs]
      rfl
    have hunc := hacc.unclaimed ⟨by simp, by simp⟩
    have hub : ∀ op ∈ acc.consumed.btc, op ∉ L.btc.claimed := hunc.btc
    have hul : ∀ op ∈ acc.consumed.ltc, op ∉ L.ltc.claimed := hunc.ltc
    have hbtc : (updates.btc.map fun u => undoRelayUpdate u Lr.btc.relay).getD Lr.btc.relay = L.btc.relay :=
      relay_undo hm hk .btc
    have hltc : (updates.ltc.map fun u => undoRelayUpdate u Lr.ltc.relay).getD Lr.ltc.relay = L.ltc.relay :=
      relay_undo hm hk .ltc
    have hutxos := undo_eq_iff hspent (b.created C height)
    rw [KeepsOverwritten, ← hutxos, ← hseen]
    simp only [Ledger.revert, Ledger.commit, Ledger.spentBy, hm.utxos, hm.btcClaimed, hm.ltcClaimed, hbtc, hltc,
      union_sdiff_unclaimed hub, union_sdiff_unclaimed hul]
    constructor
    · intro he
      exact congrArg Ledger.utxos he
    · intro he
      rw [he]

namespace ChainState

/-- The part of a state that a block changes and its undo data restores. -/
structure LedgerPart where
  ledger : Ledger
  issued : Nat
  totalWork : Nat
  chain : List Block
  height : Nat
  bestTip : Hash32

def ledgerPart (s : ChainState) : LedgerPart :=
  ⟨s.toLedger, s.issued, s.totalWork, s.chain, s.height, s.bestTip⟩

variable {s s' : ChainState} {b : Block} {undo : BlockUndo} {L : Ledger}

theorem tipUndo_acceptBlock (hs : WellFormed C E s) :
    tipUndo C E (acceptBlock C E (s.setLedger L) b undo) = .ok (b, undo) := by
  obtain ⟨poawx, index, finalized, heq, -⟩ := acceptBlock_eq (C := C) (E := E) (s.setLedger L) b undo
  have hlen := List.length_pos_of_ne_nil hs.nonempty
  rw [heq, tipUndo_eq_ok]
  refine ⟨by simp [pushBlock], ?_, ?_⟩
  · simp only [pushBlock, setLedger, List.length_append, List.length_singleton]
    omega
  · exact Finmap.lookup_insert _

theorem ledgerPart_popBlock_acceptBlock (hs : WellFormed C E s) :
    (popBlock C E (acceptBlock C E (s.setLedger L) b undo) b undo).ledgerPart =
      { s.ledgerPart with ledger := L.revert undo } := by
  obtain ⟨poawx, index, finalized, heq, -⟩ := acceptBlock_eq (C := C) (E := E) (s.setLedger L) b undo
  have hbest : ((s.chain.getLast?.map fun tip => tip.header.hashForHeight C E (s.chain.length - 1)).getD
      (ByteVec.zero 32)) = s.bestTip := by
    rw [hs.bestTip, tipHash, hs.height]
    cases s.chain.getLast? <;> rfl
  rw [heq]
  simp only [ledgerPart, popBlock, pushBlock, setLedger, List.dropLast_concat, Nat.add_sub_cancel, hs.height, hbest]

/-- Disconnecting the block that was just connected gives the block back, and the ledger as it was
exactly when the block has overwritten no unspent output. -/
theorem disconnect_restores_ledger_iff (hs : Reachable C E s) (h : connectBlock C E A b s = (.ok (), s')) :
    (∃ s'', disconnectTipBlock C E s' = (.ok b, s'') ∧ s''.ledgerPart = s.ledgerPart) ↔
      KeepsOverwritten C s.height s.utxos b := by
  have hw := hs.wellFormed
  obtain ⟨-, undo, L, hL, -, rfl⟩ := connectBlock_eq_ok.mp h
  have ha := applyTransactions_ok hL
  rw [← ha.revert_eq_iff hw.sameKeys]
  constructor
  · rintro ⟨s'', hd, hpart⟩
    obtain ⟨undo', ht, rfl⟩ := disconnectTipBlock_eq_ok.mp hd
    rw [tipUndo_acceptBlock hw, Except.ok.injEq, Prod.mk.injEq] at ht
    obtain ⟨-, rfl⟩ := ht
    rw [ledgerPart_popBlock_acceptBlock hw] at hpart
    exact congrArg LedgerPart.ledger hpart
  · intro hrev
    refine ⟨_, disconnectTipBlock_eq_ok.mpr ⟨undo, tipUndo_acceptBlock hw, rfl⟩, ?_⟩
    rw [ledgerPart_popBlock_acceptBlock hw, hrev]
    rfl

-- A coinbase need not name its height, so two blocks may carry the same one.
def repeatedCoinbase : Transaction := coinbaseTx [] [⟨5000000000, p2pkhScript (ByteVec.zero 20)⟩]

def repeatedCoinbaseTxid : Hash32 := beVec 32 0x4a4cdfa8c2364d0a7f0b7d6d114608d114323fe2994a6988c46fc3b45a01af40

def firstWithCoinbase : Block :=
  devnetBlock lockedGenesisHash repeatedCoinbaseTxid.reverse 1767583931 1 [repeatedCoinbase]

def secondWithCoinbase : Block :=
  devnetBlock (beVec 32 0x3224e2d5ff9604977a419dd95e2fcc86a27a7609b4874bb46f70b1515e4c7add)
    repeatedCoinbaseTxid.reverse 1767583932 3 [repeatedCoinbase]

theorem first_block_undone_exactly :
    ∃ s s' s'', Reachable shaCrypto devnetNode s ∧
      connectBlock shaCrypto devnetNode quietAmbient firstWithCoinbase s = (.ok (), s') ∧
      disconnectTipBlock shaCrypto devnetNode s' = (.ok firstWithCoinbase, s'') ∧
      s''.ledgerPart = s.ledgerPart := by
  obtain ⟨s, hs, hok, hkeeps⟩ := exists_reachable_of_runOf (C := shaCrypto) (E := devnetNode)
    quietAmbient devnetParams []
    (fun s => (connectBlock shaCrypto devnetNode quietAmbient firstWithCoinbase s).1 = .ok () ∧
      KeepsOverwritten shaCrypto s.height s.utxos firstWithCoinbase) (by decide +kernel)
  have hc : connectBlock shaCrypto devnetNode quietAmbient firstWithCoinbase s = (.ok (), _) := Prod.ext hok rfl
  obtain ⟨s'', hd, hpart⟩ := (disconnect_restores_ledger_iff hs hc).mpr hkeeps
  exact ⟨s, _, s'', hs, hc, hd, hpart⟩

theorem repeated_coinbase_lost_on_disconnect :
    ∃ s s' s'', Reachable shaCrypto devnetNode s ∧
      connectBlock shaCrypto devnetNode quietAmbient secondWithCoinbase s = (.ok (), s') ∧
      disconnectTipBlock shaCrypto devnetNode s' = (.ok secondWithCoinbase, s'') ∧
      ⟨repeatedCoinbaseTxid, 0⟩ ∈ s.utxos ∧ ⟨repeatedCoinbaseTxid, 0⟩ ∉ s''.utxos := by
  obtain ⟨s, hs, hc, hd, hbefore, hafter⟩ := exists_reachable_of_runOf (C := shaCrypto) (E := devnetNode)
    quietAmbient devnetParams [firstWithCoinbase]
    (fun s =>
      let r := connectBlock shaCrypto devnetNode quietAmbient secondWithCoinbase s
      let r' := disconnectTipBlock shaCrypto devnetNode r.2
      r.1 = .ok () ∧ r'.1 = .ok secondWithCoinbase ∧
        ⟨repeatedCoinbaseTxid, 0⟩ ∈ s.utxos ∧ ⟨repeatedCoinbaseTxid, 0⟩ ∉ r'.2.utxos) (by decide +kernel)
  exact ⟨s, _, _, hs, Prod.ext hc rfl, Prod.ext hd rfl, hbefore, hafter⟩

end ChainState

end IriumConsensus
