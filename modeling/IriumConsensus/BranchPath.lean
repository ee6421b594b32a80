import IriumConsensus.ProcessBlock

namespace IriumConsensus

open ByteCodec Checks

variable {C : Crypto} {E : NodeEnv}

namespace ChainState

variable {s : ChainState} {chain chain' : List Block} {h i : Nat}

/-- The index of `s` holds the blocks of a chain under their hashes, and each block but the first names
its parent. -/
structure Indexed (C : Crypto) (E : NodeEnv) (s : ChainState) (chain : List Block) : Prop where
  stored : ∀ h (hh : h < chain.length), blockByHash s (chain[h].header.hashForHeight C E h) = some chain[h]
  height : ∀ h (hh : h < chain.length), s.heights.lookup (chain[h].header.hashForHeight C E h) = some h
  linked : ∀ h (hh : h < chain.length - 1), chain[h + 1].header.prevHash = chain[h].header.hashForHeight C E h
  hasParent : ∀ h (hh : h < chain.length - 1), chain[h + 1].header.prevHash ≠ ByteVec.zero 32

theorem Indexed.eq_of_hash (hc : Indexed C E s chain) (hc' : Indexed C E s chain') (hh : h < chain.length)
    (hh' : h < chain'.length) (heq : chain[h].header.hashForHeight C E h = chain'[h].header.hashForHeight C E h) :
    chain[h] = chain'[h] := by
  have h₁ := hc.stored h hh
  rw [heq, hc'.stored h hh'] at h₁
  exact (Option.some.inj h₁).symm

theorem Indexed.take_eq (hc : Indexed C E s chain) (hc' : Indexed C E s chain') (hh : h < chain.length)
    (hh' : h < chain'.length) (heq : chain[h] = chain'[h]) :
    chain.take (h + 1) = chain'.take (h + 1) := by
  induction h with
  | zero => rw [← List.take_append_getElem hh, ← List.take_append_getElem hh', heq, List.take_zero, List.take_zero]
  | succ h ih =>
    have hparent := congrArg (fun b : Block => b.header.prevHash) heq
    simp only [hc.linked h (by omega), hc'.linked h (by omega)] at hparent
    have hbelow := ih (by omega) (by omega) (hc.eq_of_hash hc' (by omega) (by omega) hparent)
    rw [← List.take_append_getElem hh, ← List.take_append_getElem hh', hbelow, heq]

theorem Indexed.length_le (hc : Indexed C E s chain) : chain.length ≤ s.heights.keys.card := by
  have hinj : Set.InjOn (fun i : Fin chain.length => chain[i].header.hashForHeight C E i)
      (Finset.univ : Finset (Fin chain.length)) := by
    intro i _ j _ heq
    have hi := hc.height i i.isLt
    simp only [Fin.getElem_fin] at heq
    rw [heq, hc.height j j.isLt] at hi
    exact Fin.ext (Option.some.inj hi).symm
  have hmaps : ∀ i ∈ (Finset.univ : Finset (Fin chain.length)),
      chain[i].header.hashForHeight C E i ∈ s.heights.keys := by
    intro i _
    rw [Finmap.mem_keys, Finmap.mem_iff]
    exact ⟨i, hc.height i i.isLt⟩
  have hcard := Finset.card_le_card_of_injOn _ hmaps hinj
  rwa [Finset.card_univ, Fintype.card_fin] at hcard

theorem isHashOnMainChain_eq_some (hc : Indexed C E s chain) (hi : i < chain.length)
    (heq : s.chain[i]? = some chain[i]) :
    isHashOnMainChain C E s (chain[i].header.hashForHeight C E i) = some i := by
  simp [isHashOnMainChain, hc.height i hi, heq]

theorem isHashOnMainChain_eq_none (hs : Indexed C E s s.chain) (hc : Indexed C E s chain) (hi : i < chain.length)
    (hne : s.chain[i]? ≠ some chain[i]) :
    isHashOnMainChain C E s (chain[i].header.hashForHeight C E i) = none := by
  simp only [isHashOnMainChain, hc.height i hi, Option.bind_eq_bind, Option.bind_some]
  cases hb : s.chain[i]? with
  | none => rfl
  | some b =>
    obtain ⟨hlt, rfl⟩ := List.getElem?_eq_some_iff.mp hb
    have hhash : s.chain[i].header.hashForHeight C E i ≠ chain[i].header.hashForHeight C E i := by
      intro heq
      exact hne (hb.trans (congrArg some (hs.eq_of_hash hc hlt hi heq)))
    rw [Option.bind_some, if_neg hhash]

structure PartsAt (main chain : List Block) (a : Nat) (rest : List Block) : Prop where
  below : a < main.length
  split : chain = main.take (a + 1) ++ rest
  parts : ∀ b ∈ rest.head?, main[a + 1]? ≠ some b

theorem walkBack_meets (hs : Indexed C E s s.chain) (hc : Indexed C E s chain) (hi : i < chain.length)
    (hmeet : s.chain[i]? = some chain[i]) (fuel : Nat) (branch : List Block) :
    walkBack C E s (fuel + 1) (chain[i].header.hashForHeight C E i) branch = .ok (i, branch) ∧
      PartsAt s.chain (chain.take (i + 1)) i [] := by
  obtain ⟨hlt, heq⟩ := List.getElem?_eq_some_iff.mp hmeet
  refine ⟨?_, hlt, ?_, by simp⟩
  · simp only [walkBack, isHashOnMainChain_eq_some hc hi hmeet]
  · rw [List.append_nil, hs.take_eq hc hlt hi heq]

theorem walkBack_eq (hs : Indexed C E s s.chain) (hc : Indexed C E s chain) (hroot : s.chain[0]? = chain[0]?)
    {fuel : Nat} (hi : i < chain.length) (hfuel : i < fuel) (branch : List Block) :
    ∃ a rest, walkBack C E s fuel (chain[i].header.hashForHeight C E i) branch = .ok (a, rest ++ branch) ∧
      PartsAt s.chain (chain.take (i + 1)) a rest := by
  obtain ⟨fuel, rfl⟩ : ∃ n, fuel = n + 1 := ⟨fuel - 1, by omega⟩
  induction i generalizing fuel branch with
  | zero => exact ⟨0, [], walkBack_meets hs hc hi (hroot.trans (List.getElem?_eq_getElem hi)) fuel branch⟩
  | succ i ih =>
    by_cases hmeet : s.chain[i + 1]? = some chain[i + 1]
    · exact ⟨i + 1, [], walkBack_meets hs hc hi hmeet fuel branch⟩
    · obtain ⟨fuel, rfl⟩ : ∃ n, fuel = n + 1 := ⟨fuel - 1, by omega⟩
      obtain ⟨a, rest, hwalk, hbelow, hsplit, hparts⟩ := ih (by omega) (chain[i + 1] :: branch) fuel (by omega)
      refine ⟨a, rest ++ [chain[i + 1]], ?_, hbelow, ?_, ?_⟩
      · rw [walkBack, isHashOnMainChain_eq_none hs hc hi hmeet]
        simp only [bind_eq_ok, orFail_eq_ok, exists_unit, failIf_eq_ok]
        refine ⟨chain[i + 1], hc.stored _ hi, hc.hasParent i (by omega), ?_⟩
        rw [hc.linked i (by omega), hwalk, List.append_assoc]
        rfl
      · rw [← List.take_append_getElem hi, hsplit, List.append_assoc]
      · cases rest with
        | nil =>
          -- the walk has met the main chain right below
          have hlen := congrArg List.length hsplit
          simp only [List.length_take, List.append_nil] at hlen
          obtain rfl : a = i := by omega
          simpa using hmeet
        | cons b rest => exact hparts

theorem findReorgPath_indexed (hs : Indexed C E s s.chain) (hc : Indexed C E s chain)
    (hroot : s.chain[0]? = chain[0]?) {last : Nat} (hlast : chain.length = last + 1) :
    ∃ a rest, findReorgPath C E s (chain[last].header.hashForHeight C E last) = .ok (a, rest) ∧
      PartsAt s.chain chain a rest := by
  have hlen := hc.length_le
  obtain ⟨a, rest, hwalk, hparts⟩ := walkBack_eq hs hc hroot (by omega : last < chain.length)
    (by omega : last < s.blockStore.keys.card + s.heights.keys.card + 1) []
  rw [List.append_nil] at hwalk
  rw [List.take_of_length_le (by omega)] at hparts
  exact ⟨a, rest, hwalk, hparts⟩

end ChainState

end IriumConsensus
