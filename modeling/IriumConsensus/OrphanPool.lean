import IriumConsensus.IndexInvariant

namespace IriumConsensus

open Checks FinMaps Stateful Relation

namespace ChainState

variable {C : Crypto} {E : NodeEnv} {A : Ambient} {s : ChainState} {pool : FinMap Hash32 (List Block)}

/-- Few orphans wait, each under the hash of its parent. -/
structure OrphansKept (pool : FinMap Hash32 (List Block)) : Prop where
  size : orphanPoolSize pool ≤ maxOrphanBlocks
  parent : ∀ hash bs, pool.lookup hash = some bs → ∀ b ∈ bs, b.header.prevHash = hash

theorem OrphansKept.submap {pool' : FinMap Hash32 (List Block)} (h : OrphansKept pool) (hsub : Submap pool' pool) :
    OrphansKept pool' :=
  ⟨(hsub.total_le _).trans h.size, fun hash bs hlook => h.parent hash bs (hsub hash bs hlook)⟩

theorem pruneOrphanPool_size {fuel : Nat} (h : pool.keys.card ≤ fuel) :
    orphanPoolSize (pruneOrphanPool A fuel pool) ≤ maxOrphanBlocks := by
  have hempty : ∀ pool : FinMap Hash32 (List Block), ¬pool.keys.Nonempty → orphanPoolSize pool ≤ maxOrphanBlocks := by
    intro pool hkeys
    rw [orphanPoolSize, total_eq_sum_keys, Finset.not_nonempty_iff_eq_empty.mp hkeys]
    exact Nat.zero_le _
  induction fuel generalizing pool with
  | zero => exact hempty pool fun hkeys => absurd (Finset.card_pos.mpr hkeys) (by omega)
  | succ fuel ih =>
    rw [pruneOrphanPool]
    split
    next hlarge =>
      refine ih ?_
      rw [Finmap.keys_erase, Finset.card_erase_of_mem (A.firstKey pool.keys hlarge.2).2]
      omega
    next hsmall =>
      rcases not_and_or.mp hsmall with hle | hkeys
      · exact Nat.not_lt.mp hle
      · exact hempty pool hkeys

theorem pruneOrphanPool_submap (fuel : Nat) : Submap (pruneOrphanPool A fuel pool) pool := by
  induction fuel generalizing pool with
  | zero => exact .refl _
  | succ fuel ih =>
    rw [pruneOrphanPool]
    split
    next => exact fun hash bs hlook => submap_erase _ _ hash bs (ih hash bs hlook)
    next => exact .refl _

theorem OrphansKept.addOrphan (h : OrphansKept s.orphanPool) (b : Block) :
    OrphansKept (addOrphan A s b).orphanPool := by
  refine ⟨pruneOrphanPool_size le_rfl, fun hash bs hlook c hc => ?_⟩
  replace hlook := pruneOrphanPool_submap _ hash bs hlook
  rw [lookup_insert_eq] at hlook
  split at hlook
  next heq =>
    obtain rfl := Option.some.inj hlook
    rcases List.mem_append.mp hc with hold | hnew
    · cases hwait : s.orphanPool.lookup b.header.prevHash with
      | none => simp [hwait] at hold
      | some waiting => exact heq ▸ h.parent _ waiting hwait c (by simpa [hwait] using hold)
    · rw [List.mem_singleton.mp hnew, heq]
  next => exact h.parent hash bs hlook c hc

theorem OrphansKept.pruneCaches (h : OrphansKept s.orphanPool) : OrphansKept (pruneCaches C E s).orphanPool := by
  unfold ChainState.pruneCaches pruneBlockStore pruneHeaderCache
  split_ifs <;> exact h

theorem moves_orphans : Moves C E (Keeps fun s => OrphansKept s.orphanPool) :=
  .of_keeps (fun _ _ hs => hs) (fun _ _ _ _ _ _ _ _ _ hs => hs) (fun _ hs => hs.pruneCaches) (fun _ _ _ _ hs => hs)
    fun _ _ hs => hs

/-- However many blocks without a parent a node is sent, it keeps a hundred of them at most. -/
theorem orphans_bounded {params : ChainParams} {s₀ : ChainState} (hnew : new C E A params = some s₀)
    (hrun : ReflTransGen (CallStep C E fun _ _ => True) s₀ s) : OrphansKept s.orphanPool := by
  induction hrun with
  | refl =>
    obtain ⟨undo, L, -, rfl⟩ := new_eq_some hnew
    exact ⟨Nat.zero_le _, fun hash bs hlook => absurd hlook (by simp [indexGenesis, acceptGenesis, setLedger, blank])⟩
  | tail _ hstep ih =>
    obtain ⟨A, fuel, b, -, rfl⟩ := hstep
    refine processBlock_moves (R := Keeps fun s => OrphansKept s.orphanPool) A
      (fun s hash hs => hs.submap (submap_erase _ _)) (fun s b hs => hs.addOrphan b) (fun b p s hs => ?_)
      (fun s hs => hs.pruneCaches) fuel b _ ih
    exact moves_orphans.indexAndAdopt A (fun _ ht => ht) hs

theorem orphans_bounded_waiting :
    ∃ s₀, new shaCrypto devnetNode quietAmbient devnetParams = some s₀ ∧
      (afterCalls shaCrypto devnetNode quietAmbient 2 [firstChild] s₀).orphanPool.keys = {lowHash} ∧
      OrphansKept (afterCalls shaCrypto devnetNode quietAmbient 2 [firstChild] s₀).orphanPool := by
  obtain ⟨s₀, hnew, hwaits⟩ := exists_of_any (new shaCrypto devnetNode quietAmbient devnetParams)
    (fun s₀ => (afterCalls shaCrypto devnetNode quietAmbient 2 [firstChild] s₀).orphanPool.keys = {lowHash})
    (by decide +kernel)
  exact ⟨s₀, hnew, hwaits, orphans_bounded hnew (afterCalls_run 2 [firstChild] s₀)⟩

end ChainState

end IriumConsensus
