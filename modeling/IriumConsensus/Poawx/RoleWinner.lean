import Mathlib.Data.List.MinMax
import Mathlib.Data.Prod.Lex
import IriumConsensus.Poawx.Candidate

namespace IriumConsensus

open ByteCodec

structure RoleCandidateMirror where
  roleId : UInt8
  solverPkh : Pkh
  assignmentPublicKey : PubKey33
  ticketDigest : Hash32
  penaltyStatus : UInt8
  assignmentProofDigest : Hash32
  dominanceWeight : UInt64
  penaltyWeight : UInt64
  effectiveScore : UInt64
  roleClaimDigest : Hash32
  deriving DecidableEq, Repr

structure CandidateSetMirror where
  networkId : UInt8
  targetHeight : UInt64
  seed : Hash32
  candidates : List RoleCandidateMirror
  deriving DecidableEq, Repr

def candidateBetterMirror (a b : RoleCandidateMirror) : Bool :=
  if a.effectiveScore ≠ b.effectiveScore then b.effectiveScore < a.effectiveScore
  else if a.assignmentProofDigest ≠ b.assignmentProofDigest then
    a.assignmentProofDigest.toNat < b.assignmentProofDigest.toNat
  else if a.solverPkh ≠ b.solverPkh then a.solverPkh.toNat < b.solverPkh.toNat
  else a.ticketDigest.toNat < b.ticketDigest.toNat

def betterOfMirror (best : Option RoleCandidateMirror) (c : RoleCandidateMirror) : Option RoleCandidateMirror :=
  match best with
  | none => some c
  | some b => if candidateBetterMirror c b then some c else some b

def CandidateSetMirror.bestForRole (cs : CandidateSetMirror) (roleId : UInt8) : Option RoleCandidateMirror :=
  (cs.candidates.filter fun c => c.roleId = roleId).foldl betterOfMirror none

def RoleCandidate.mirror (c : RoleCandidate) : RoleCandidateMirror :=
  ⟨c.roleId, c.solverPkh, c.assignmentPublicKey, c.ticketDigest, c.penaltyStatus, c.assignmentProofDigest,
    c.dominanceWeight, c.penaltyWeight, c.effectiveScore, c.roleClaimDigest⟩

def CandidateSet.mirror (cs : CandidateSet) : CandidateSetMirror :=
  ⟨cs.networkId, cs.targetHeight, cs.seed, cs.candidates.map RoleCandidate.mirror⟩

variable {cs : CandidateSet} {roleId : UInt8} {a b c : RoleCandidate}

/-- What the ranking compares, in this order: the greater score and then the lesser digests win. -/
def RoleCandidate.rankKey (c : RoleCandidate) : ℕᵒᵈ ×ₗ ℕ ×ₗ ℕ ×ₗ ℕ :=
  toLex (OrderDual.toDual c.effectiveScore.toNat,
    toLex (c.assignmentProofDigest.toNat, toLex (c.solverPkh.toNat, c.ticketDigest.toNat)))

theorem candidateBetter_iff : candidateBetter a b ↔ a.rankKey < b.rankKey := by
  simp only [RoleCandidate.rankKey, Prod.Lex.toLex_lt_toLex, OrderDual.toDual_lt_toDual, OrderDual.toDual_inj,
    UInt64.toNat_inj, ByteVec.toNat_injective.eq_iff]
  unfold candidateBetter
  split_ifs with hs hd hp <;> simp_all [UInt64.lt_iff_toNat_lt]

theorem rankKey_eq_iff : a.rankKey = b.rankKey ↔ a.effectiveScore = b.effectiveScore ∧
    a.assignmentProofDigest = b.assignmentProofDigest ∧ a.solverPkh = b.solverPkh ∧ a.ticketDigest = b.ticketDigest := by
  simp only [RoleCandidate.rankKey, EmbeddingLike.apply_eq_iff_eq, Prod.mk.injEq, UInt64.toNat_inj,
    ByteVec.toNat_injective.eq_iff]

namespace CandidateSet

theorem bestForRole_eq_argmin (cs : CandidateSet) (roleId : UInt8) :
    cs.bestForRole roleId = (cs.candidates.filter fun c => c.roleId = roleId).argmin RoleCandidate.rankKey := by
  have hstep : betterOf = List.argAux fun b c => RoleCandidate.rankKey b < RoleCandidate.rankKey c := by
    funext best c
    cases best with
    | none => rfl
    | some b => simp only [betterOf, List.argAux, candidateBetter_iff]
  rw [bestForRole, hstep, List.argmin]

theorem mem_bestForRole_iff (hinj : ∀ a ∈ cs.candidates, ∀ b ∈ cs.candidates, a.roleId = roleId → b.roleId = roleId →
      a.rankKey = b.rankKey → a = b) :
    cs.bestForRole roleId = some a ↔ (a ∈ cs.candidates ∧ a.roleId = roleId) ∧
      ∀ b ∈ cs.candidates, b.roleId = roleId → b ≠ a → candidateBetter a b := by
  rw [bestForRole_eq_argmin]
  have hmem : ∀ b, b ∈ cs.candidates.filter (fun c => c.roleId = roleId) ↔ b ∈ cs.candidates ∧ b.roleId = roleId :=
    fun b => by simp
  constructor
  · intro h
    have ha := (hmem a).mp (List.argmin_mem h)
    refine ⟨ha, fun b hb hrole hne => candidateBetter_iff.mpr ?_⟩
    refine (List.le_of_mem_argmin ((hmem b).mpr ⟨hb, hrole⟩) h).lt_of_ne fun heq => hne ?_
    exact (hinj a ha.1 b hb ha.2 hrole heq).symm
  · rintro ⟨ha, hbest⟩
    cases h : (cs.candidates.filter fun c => c.roleId = roleId).argmin RoleCandidate.rankKey with
    | none =>
      have hnil := List.argmin_eq_none.mp h
      exact absurd ((hmem a).mpr ha) (by simp [hnil])
    | some w =>
      have hw := (hmem w).mp (List.argmin_mem h)
      by_contra hne
      have hlt := candidateBetter_iff.mp (hbest w hw.1 hw.2 fun he => hne (he ▸ rfl))
      exact absurd (List.le_of_mem_argmin ((hmem a).mpr ha) h) (not_le.mpr hlt)

/-- Two candidates of one role that rank alike have one sort key, which a canonical set holds once. -/
theorem eq_of_rankKey (hc : cs.isCanonical) (ha : a ∈ cs.candidates) (hb : b ∈ cs.candidates)
    (hrole : a.roleId = b.roleId) (h : a.rankKey = b.rankKey) : a = b := by
  obtain ⟨-, hdigest, hpkh, hticket⟩ := rankKey_eq_iff.mp h
  have hnodup : (cs.candidates.map RoleCandidate.sortKey).Nodup := (strictlyIncreasing_iff.mp hc).imp fun h => h.ne
  refine List.inj_on_of_nodup_map hnodup ha hb ?_
  simp only [RoleCandidate.sortKey, hrole, hpkh, hticket, hdigest]

theorem mirror_bestForRole (cs : CandidateSet) (roleId : UInt8) :
    cs.mirror.bestForRole roleId = (cs.bestForRole roleId).map RoleCandidate.mirror := by
  have hstep : ∀ (best : Option RoleCandidate) (c : RoleCandidate),
      betterOfMirror (best.map RoleCandidate.mirror) c.mirror = (betterOf best c).map RoleCandidate.mirror := by
    intro best c
    cases best with
    | none => rfl
    | some b =>
      have hbetter : candidateBetterMirror c.mirror b.mirror = candidateBetter c b := rfl
      simp only [betterOfMirror, betterOf, Option.map_some, hbetter]
      split <;> rfl
  rw [bestForRole, CandidateSetMirror.bestForRole, mirror, List.filter_map, List.foldl_map]
  exact @List.foldl_hom _ _ _ (Option.map RoleCandidate.mirror) betterOf _ _ none hstep

/-- In a canonical set the ranking orders the candidates of a role, and the winner is its best one, whatever the
order of the list and whoever computes it. -/
theorem role_winner (hc : cs.isCanonical) (roleId : UInt8) :
    IsStrictTotalOrder {c // c ∈ cs.candidates ∧ c.roleId = roleId} (fun a b => candidateBetter a.1 b.1) ∧
    (∀ w, cs.bestForRole roleId = some w → (w ∈ cs.candidates ∧ w.roleId = roleId) ∧
      ∀ c ∈ cs.candidates, c.roleId = roleId → c ≠ w → candidateBetter w c) ∧
    (cs.bestForRole roleId = none ↔ ∀ c ∈ cs.candidates, c.roleId ≠ roleId) ∧
    (∀ ds : List RoleCandidate, ds.Perm cs.candidates →
      ({ cs with candidates := ds } : CandidateSet).bestForRole roleId = cs.bestForRole roleId) ∧
    cs.mirror.bestForRole roleId = (cs.bestForRole roleId).map RoleCandidate.mirror := by
  have hinj : ∀ a ∈ cs.candidates, ∀ b ∈ cs.candidates, a.roleId = roleId → b.roleId = roleId →
      a.rankKey = b.rankKey → a = b :=
    fun a ha b hb hra hrb => eq_of_rankKey hc ha hb (hra.trans hrb.symm)
  refine ⟨?_, fun w => (mem_bestForRole_iff hinj).mp, ?_, fun ds hds => ?_, mirror_bestForRole cs roleId⟩
  · refine { trichotomous := fun a b => ?_, irrefl := fun a => ?_, trans := fun a b c => ?_ }
    · intro hab hba
      refine Subtype.ext (hinj a.1 a.2.1 b.1 b.2.1 a.2.2 b.2.2 (le_antisymm ?_ ?_))
      · exact not_lt.mp fun h => hba (candidateBetter_iff.mpr h)
      · exact not_lt.mp fun h => hab (candidateBetter_iff.mpr h)
    · exact fun h => lt_irrefl _ (candidateBetter_iff.mp h)
    · exact fun hab hbc => candidateBetter_iff.mpr ((candidateBetter_iff.mp hab).trans (candidateBetter_iff.mp hbc))
  · rw [bestForRole_eq_argmin, List.argmin_eq_none, List.filter_eq_nil_iff]
    simp only [decide_eq_true_eq, ne_eq]
  · refine Option.ext fun w => ?_
    rw [mem_bestForRole_iff hinj, mem_bestForRole_iff]
    · simp only [hds.mem_iff]
    · simpa only [hds.mem_iff] using hinj

def plainCandidate (pkh score : Nat) : RoleCandidate where
  roleId := 1
  solverPkh := beVec 20 pkh
  assignmentPublicKey := ByteVec.zero 33
  ticketDigest := ByteVec.zero 32
  penaltyStatus := 0
  assignmentProofDigest := ByteVec.zero 32
  dominanceWeight := 1000
  penaltyWeight := 1000
  effectiveScore := UInt64.ofNat score
  roleClaimDigest := ByteVec.zero 32

def threeCandidates : CandidateSet :=
  ⟨1, 1, ByteVec.zero 32, [plainCandidate 1 5, plainCandidate 2 7, plainCandidate 3 7]⟩

theorem role_winner_of_three : threeCandidates.bestForRole 1 = some (plainCandidate 2 7) ∧
    ({ threeCandidates with candidates := threeCandidates.candidates.reverse } : CandidateSet).bestForRole 1 =
      threeCandidates.bestForRole 1 :=
  ⟨by decide +kernel, (role_winner (by decide +kernel) 1).2.2.2.1 _ (List.reverse_perm _)⟩

end CandidateSet

end IriumConsensus
