import IriumConsensus.StepRules

namespace IriumConsensus

open Checks

variable {C : Crypto} {E : NodeEnv} {A : Ambient} {Offered : Nat → Block → Prop}

variable {L L' : Ledger} {undo : BlockUndo} {tip : Block}

def Ledger.SameKeys (L : Ledger) : Prop := ∀ chain, (L.relay chain).SameKeys

theorem SomeMoved.sameKeys (hm : SomeMoved L L') (hk : L.SameKeys) : L'.SameKeys := by
  obtain ⟨updates, hm⟩ := hm
  intro chain
  cases hu : updates.get chain with
  | none => rw [hm.unmoved chain hu]; exact hk chain
  | some u => exact (hm.moved chain u hu).sameKeys (hk chain)

theorem Ledger.commit_relay (L : Ledger) (acc : TxAcc) (created : List (OutPoint × UtxoEntry))
    (chain : ForeignChain) : (L.commit acc created).relay chain = L.relay chain := by cases chain <;> rfl

theorem BlockApplied.sameKeys {P : ChainParams} {height reward : Nat} {b : Block} {enforce : Bool} {m : Option Nat}
    (h : BlockApplied C E P height b reward enforce m L undo L') (hk : L.SameKeys) : L'.SameKeys := by
  cases h with
  | mk _ _ _ hm _ _ _ _ =>
    intro chain
    rw [Ledger.commit_relay]
    exact hm.someMoved.sameKeys hk chain

theorem Ledger.revert_sameKeys (hk : L.SameKeys) (undo : BlockUndo) : (L.revert undo).SameKeys := by
  intro chain
  cases chain with
  | btc => cases h : undo.btcRelayUpdate with
    | none => simpa [Ledger.revert, Ledger.relay, h] using hk .btc
    | some u => simpa [Ledger.revert, Ledger.relay, h] using undoRelayUpdate_sameKeys (hk .btc) u
  | ltc => cases h : undo.ltcRelayUpdate with
    | none => simpa [Ledger.revert, Ledger.relay, h] using hk .ltc
    | some u => simpa [Ledger.revert, Ledger.relay, h] using undoRelayUpdate_sameKeys (hk .ltc) u

namespace ChainState

structure WellFormed (C : Crypto) (E : NodeEnv) (s : ChainState) : Prop where
  nonempty : s.chain ≠ []
  height : s.height = s.chain.length
  bestTip : s.bestTip = tipHash C E s
  sameKeys : s.toLedger.SameKeys
  issued : s.issued ≤ maxMoney

variable {s s' : ChainState}

theorem WellFormed.reverse_chain (hw : WellFormed C E s) :
    s.chain.reverse ≠ [] ∧ s.chain.reverse.length = s.height :=
  ⟨by simpa using hw.nonempty, by rw [List.length_reverse, hw.height]⟩

theorem tipUndo_eq_ok :
    tipUndo C E s = .ok (tip, undo) ↔
      s.chain.getLast? = some tip ∧ 1 < s.chain.length ∧
        s.undoLogs.lookup (tip.header.hashForHeight C E (s.height - 1)) = some undo := by
  simp only [tipUndo, bind_eq_ok, exists_unit, orFail_eq_ok, failIf_eq_ok, pure_eq_ok, not_le, Prod.mk.injEq]
  constructor
  · rintro ⟨_, hlast, hlen, _, hundo, rfl, rfl⟩
    exact ⟨hlast, hlen, hundo⟩
  · rintro ⟨hlast, hlen, hundo⟩
    exact ⟨tip, hlast, hlen, undo, hundo, rfl, rfl⟩

theorem acceptBlock_chain_reverse (s : ChainState) (b : Block) (undo : BlockUndo) :
    (acceptBlock C E s b undo).chain.reverse = b :: s.chain.reverse := by
  rw [(acceptBlock_grows s b undo).1, List.reverse_append]
  rfl

theorem WellFormed.tip_reverse (hs : WellFormed C E s)
    (ht : tipUndo C E s = .ok (tip, undo)) :
    s.chain.reverse = tip :: s.chain.dropLast.reverse ∧ s.chain.dropLast.reverse ≠ [] ∧
      s.chain.dropLast.reverse.length = s.height - 1 := by
  obtain ⟨hlast, hlen, -⟩ := tipUndo_eq_ok.mp ht
  have hbelow : s.chain.dropLast.reverse.length = s.height - 1 := by
    rw [List.length_reverse, List.length_dropLast, hs.height]
  have hheight := hs.height
  refine ⟨?_, List.ne_nil_of_length_pos (by omega), hbelow⟩
  obtain ⟨rest, hrest⟩ := List.getLast?_eq_some_iff.mp hlast
  rw [hrest, List.dropLast_concat, List.reverse_append]
  rfl

theorem new_wellFormed {params : ChainParams} (h : new C E A params = some s) : WellFormed C E s := by
  obtain ⟨undo, L, hL, rfl⟩ := new_eq_some h
  have ha := (validateAndApplyTransactions_triple _ _ _ _).ok rfl hL
  refine ⟨by simp [indexGenesis, acceptGenesis], rfl, ?_, ?_, ?_⟩
  · rfl
  · refine ha.sameKeys fun chain => ?_
    cases chain <;> exact Relay.empty_sameKeys
  · cases ha with
    | mk _ _ _ _ _ _ _ hsub => exact hsub _ rfl

theorem acceptBlock_wellFormed {b : Block} (hs : WellFormed C E s)
    (ha : Applied C E s b undo L) : WellFormed C E (acceptBlock C E (s.setLedger L) b undo) := by
  obtain ⟨poawx, index, finalized, heq, -⟩ := acceptBlock_eq (C := C) (E := E) (s.setLedger L) b undo
  rw [heq]
  refine ⟨by simp [pushBlock], by simp [pushBlock, setLedger, hs.height], ?_, ha.sameKeys hs.sameKeys,
    ha.issued_le hs.issued⟩
  simp [pushBlock, tipHash, blockHash, setLedger]

theorem popBlock_wellFormed (hs : WellFormed C E s)
    (ht : tipUndo C E s = .ok (tip, undo)) : WellFormed C E (popBlock C E s tip undo) := by
  obtain ⟨hlast, hlen, -⟩ := tipUndo_eq_ok.mp ht
  have hne : s.chain.dropLast ≠ [] := by
    intro h
    have := congrArg List.length h
    rw [List.length_dropLast, List.length_nil] at this
    omega
  refine ⟨hne, rfl, ?_, Ledger.revert_sameKeys hs.sameKeys undo, ?_⟩
  · simp only [popBlock, tipHash]
    cases s.chain.dropLast.getLast? <;> rfl
  · exact (Nat.sub_le _ _).trans hs.issued

theorem Effect.wellFormed (hs : WellFormed C E s) (h : Effect C E Offered s s') : WellFormed C E s' := by
  cases h with
  | refused hm => exact ⟨hs.nonempty, hs.height, hs.bestTip, hm.sameKeys hs.sameKeys, hs.issued⟩
  | accepted hb hv ha hi => exact acceptBlock_wellFormed hs ha
  | popped ht => exact popBlock_wellFormed hs ht
  | reindexed index anchors orphaned => exact ⟨hs.nonempty, hs.height, hs.bestTip, hs.sameKeys, hs.issued⟩

theorem ReachableBy.wellFormed (hs : ReachableBy C E Offered s) : WellFormed C E s :=
  hs.induct (fun _ _ _ _ h => new_wellFormed h) fun _ _ hs h => (h.effect hs.issued).wellFormed hs

/-- What holds at the start and is kept by the effect of each step on a well-formed state holds in every run. -/
theorem ReachableBy.invariant {P : ChainState → Prop}
    (hnew : ∀ A params s, Offered 0 params.genesisBlock → new C E A params = some s → P s)
    (heff : ∀ s s', WellFormed C E s → P s → Effect C E Offered s s' → P s') (hs : ReachableBy C E Offered s) :
    P s := by
  refine (hs.induct (P := fun s => WellFormed C E s ∧ P s) ?_ ?_).2
  · exact fun A params s hg h => ⟨new_wellFormed h, hnew A params s hg h⟩
  · rintro s s' ⟨hw, hp⟩ hstep
    have he := hstep.effect hw.issued
    exact ⟨he.wellFormed hw, heff s s' hw hp he⟩

theorem ReachableBy.finalizedHeight_le (hs : ReachableBy C E Offered s) : s.finalizedHeight ≤ s.chain.length - 2 := by
  refine hs.invariant (P := fun s => s.finalizedHeight ≤ s.chain.length - 2) ?_ ?_
  · intro A params s hg hnew
    obtain ⟨undo, L, -, rfl⟩ := new_eq_some hnew
    exact Nat.zero_le _
  · intro s s' hw hle heff
    have hheight := hw.height
    cases heff with
    | refused hm => exact hle
    | @accepted A b undo L hb hv ha hi =>
      obtain ⟨poawx, index, finalized, heq, hfin⟩ := acceptBlock_eq (C := C) (E := E) (s.setLedger L) b undo
      rw [heq]
      simp only [pushBlock, setLedger, List.length_append, List.length_singleton] at hfin ⊢
      omega
    | popped ht =>
      simp only [popBlock]
      omega
    | reindexed index anchors orphaned => exact hle

end ChainState

end IriumConsensus
