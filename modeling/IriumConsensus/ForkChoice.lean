import IriumConsensus.BranchPath
import IriumConsensus.Calls
import IriumConsensus.Lib.TieBreak
import IriumConsensus.Nodes

namespace IriumConsensus

open Checks TieBreak

variable {C : Crypto} {E : NodeEnv}

def chainRanks (chain : List Block) : List ProposerRank := chain.map blockProposerRank

theorem firstRankDifference_eq_none (xs ys : List Block) :
    firstRankDifference xs ys = none ↔ Agree (chainRanks xs) (chainRanks ys) := by
  induction xs generalizing ys with
  | nil => simp [firstRankDifference, chainRanks, Agree]
  | cons x xs ih =>
    cases ys with
    | nil => simp [firstRankDifference, chainRanks, Agree]
    | cons y ys =>
      simp only [firstRankDifference, chainRanks, List.map_cons, Agree, ne_eq, ite_not]
      split
      next heq => simp [heq, ih, chainRanks]
      next hne => simp [hne]

theorem firstRankDifference_eq_true (xs ys : List Block) :
    firstRankDifference xs ys = some true ↔ Before (chainRanks xs) (chainRanks ys) := by
  induction xs generalizing ys with
  | nil => simp [firstRankDifference, chainRanks, Before]
  | cons x xs ih =>
    cases ys with
    | nil => simp [firstRankDifference, chainRanks, Before]
    | cons y ys =>
      simp only [firstRankDifference, chainRanks, List.map_cons, Before, ne_eq, ite_not]
      split
      next heq => simp [heq, ih, chainRanks]
      next hne => simp [hne]

theorem firstRankDifference_append (shared xs ys : List Block) :
    firstRankDifference (shared ++ xs) (shared ++ ys) = firstRankDifference xs ys := by
  induction shared with
  | nil => rfl
  | cons b shared ih => simp [firstRankDifference, ih]

namespace ChainState

variable {s c : ChainState}

def tipKey (C : Crypto) (E : NodeEnv) (c : ChainState) : List ProposerRank × Nat :=
  (chainRanks c.chain, (tipHash C E c).toNat)

/-- `s` knows the blocks on the way to its own tip and to the tip of `c`, and breaks ties by the hash. -/
structure Compares (C : Crypto) (E : NodeEnv) (c s : ChainState) : Prop where
  height : c.height = c.chain.length
  nonempty : c.chain ≠ []
  root : s.chain[0]? = c.chain[0]?
  own : Indexed C E s s.chain
  candidate : Indexed C E s c.chain
  hardening : forkChoiceHardeningActive E s.tipHeight

theorem Compares.tipHash_eq (h : Compares C E c s) (hlt : c.chain.length - 1 < c.chain.length) :
    tipHash C E c = c.chain[c.chain.length - 1].header.hashForHeight C E (c.chain.length - 1) := by
  unfold tipHash
  rw [h.height, List.getLast?_eq_getElem?, List.getElem?_eq_getElem hlt]

theorem Compares.findReorgPath_eq (h : Compares C E c s) :
    ∃ a rest, findReorgPath C E s (tipHash C E c) = .ok (a, rest) ∧ c.chain = s.chain.take (a + 1) ++ rest := by
  have hpos := List.length_pos_of_ne_nil h.nonempty
  have hlt : c.chain.length - 1 < c.chain.length := by omega
  obtain ⟨a, rest, hpath, hparts⟩ := findReorgPath_indexed h.own h.candidate h.root
    (by omega : c.chain.length = c.chain.length - 1 + 1)
  exact ⟨a, rest, by rw [h.tipHash_eq hlt, hpath], hparts.split⟩

def Replaces (C : Crypto) (E : NodeEnv) (c s : ChainState) : Prop :=
  proposerRankChainBetter C E s (tipHash C E c) = .ok true

theorem replaces_iff_beats (h : Compares C E c s) :
    Replaces C E c s ↔ Beats (tipKey C E c) (tipKey C E s) := by
  obtain ⟨a, rest, hpath, hchain⟩ := h.findReorgPath_eq
  have hdiff : firstRankDifference rest (s.chain.drop (a + 1)) = firstRankDifference c.chain s.chain := by
    rw [hchain, ← firstRankDifference_append (s.chain.take (a + 1)), List.take_append_drop]
  have htrue := firstRankDifference_eq_true c.chain s.chain
  have hnone := firstRankDifference_eq_none c.chain s.chain
  simp only [Replaces, proposerRankChainBetter, hpath, bind_eq_ok, Except.ok.injEq, exists_eq_left', pure_eq_ok,
    hdiff, h.hardening, if_true, Beats, tipKey]
  rw [← htrue, ← hnone]
  cases hd : firstRankDifference c.chain s.chain with
  | none => simp
  | some better => simp

def rankNode : NodeEnv :=
  { devnetNode with
    activationHeight := fun v => match v with
      | .forkChoiceHardening | .proposerVrf => some 0
      | _ => none
    required := fun v => v = .proposerVrf }

def rankParams : ChainParams := nodeParams rankNode none none lockedGenesis

/-- A node that knows what `s` knows, with another main chain. -/
def onChain (s : ChainState) (chain : List Block) : ChainState := { s with chain, height := chain.length }

end ChainState

end IriumConsensus
