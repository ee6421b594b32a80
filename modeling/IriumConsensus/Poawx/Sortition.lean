import IriumConsensus.Poawx.BlockRules

namespace IriumConsensus

open ByteCodec Checks

def isSelected (priority eligibleCount round : Nat) : Bool := decide (priority < proposerThreshold eligibleCount round)

def maxRoundForElapsed (elapsedSecs roundIntervalSecs : Nat) : Nat :=
  min (elapsedSecs / max roundIntervalSecs 1) u32Max

/-- The round a miner builds for: the first allowed one that selects it. -/
def proposerRound (priority eligibleCount maxRound : Nat) : Option Nat :=
  (List.range (maxRound + 1)).find? (isSelected priority eligibleCount)

variable {r r' n parent t interval : Nat}

theorem cumulativeSlots_mono (hr : r ≤ r') (n : Nat) : cumulativeSlots r n ≤ cumulativeSlots r' n := by
  rcases r with _ | _ | _ | r <;> rcases r' with _ | _ | _ | r' <;> simp [cumulativeSlots, u64Max] <;> omega

theorem proposerThreshold_le (n r : Nat) : proposerThreshold n r ≤ u64Max := by
  simp only [proposerThreshold]
  split <;> omega

theorem proposerThreshold_mono (hr : r ≤ r') (n : Nat) :
    proposerThreshold n r ≤ proposerThreshold n r' := by
  have hslots := cumulativeSlots_mono hr (max n 1)
  by_cases hall : max n 1 ≤ cumulativeSlots r' (max n 1)
  · simpa [proposerThreshold, hall] using proposerThreshold_le n r
  · have hmul := Nat.mul_le_mul_left (u64Max / max n 1) hslots
    have hall' : ¬ max n 1 ≤ cumulativeSlots r (max n 1) := by omega
    simp only [proposerThreshold, if_neg hall, if_neg hall']
    omega

theorem proposerThreshold_antitone {n' : Nat} (hn : n ≤ n') (r : Nat) :
    proposerThreshold n' r ≤ proposerThreshold n r := by
  by_cases hall : max n 1 ≤ cumulativeSlots r (max n 1)
  · simpa [proposerThreshold, hall] using proposerThreshold_le n' r
  · have hsame : cumulativeSlots r (max n' 1) = cumulativeSlots r (max n 1) := by
      simp only [cumulativeSlots] at hall ⊢
      split at hall <;> omega
    have hall' : ¬ max n' 1 ≤ cumulativeSlots r (max n 1) := by omega
    have hdiv := Nat.div_le_div_left (a := u64Max) (show max n 1 ≤ max n' 1 by omega) (by omega)
    have hmul := Nat.mul_le_mul_right (cumulativeSlots r (max n 1)) hdiv
    simp only [proposerThreshold, hsame, if_neg hall, if_neg hall']
    omega

theorem proposerThreshold_late (hn : n ≤ u64Max) (hr : 3 ≤ r) : proposerThreshold n r = u64Max := by
  obtain ⟨k, rfl⟩ := Nat.exists_eq_add_of_le' hr
  have hslots : max n 1 ≤ cumulativeSlots (k + 3) (max n 1) := by
    simp [cumulativeSlots, u64Max] at hn ⊢
    omega
  simp [proposerThreshold, hslots]

theorem le_maxRoundForElapsed_iff (hi : 1 ≤ interval) (ht : t ≤ u32Max) :
    r ≤ maxRoundForElapsed (t - parent) interval ↔ r * interval ≤ t - parent := by
  have hdiv := Nat.div_le_self (t - parent) interval
  rw [maxRoundForElapsed, max_eq_left hi, min_eq_left (by omega), Nat.le_div_iff_mul_le hi]

theorem le_maxRoundForElapsed_iff_minTime (hi : 1 ≤ interval) (hparent : parent ≤ t) (ht : t ≤ u32Max)
    (hsat : parent + r * interval ≤ u32Max) :
    r ≤ maxRoundForElapsed (t - parent) interval ↔ minTimeForRound parent r interval ≤ t := by
  rw [le_maxRoundForElapsed_iff hi ht, minTimeForRound]
  omega

/-- A round that is open is never claimed too early, without any assumption on the sum. -/
theorem minTimeForRound_le (hi : 1 ≤ interval) (hparent : parent ≤ t) (ht : t ≤ u32Max)
    (hr : r ≤ maxRoundForElapsed (t - parent) interval) : minTimeForRound parent r interval ≤ t := by
  rw [le_maxRoundForElapsed_iff hi ht] at hr
  rw [minTimeForRound]
  omega

namespace ChainState

variable (C : Crypto) (E : NodeEnv) (s : ChainState)

/-- What the validator asks of a proposer apart from its round. -/
structure ProposerBound (height : Nat) (seed : Hash32) (r : PoawxBlockReceipt) (proof : AssignmentProofV2) :
    Prop where
  valid : proof.validate C E (networkIdByte E) height = .ok ()
  role : proof.roleId = roleProposer
  seeded : proof.seed = seed
  ticket : proof.ticketDigest = ByteVec.zero 32
  solver : proof.solverPkh = hash160 C proof.assignmentPublicKey.bytes
  worker : proof.solverPkh = r.workerPkh
  eligible : 0 < s.proposerRegistry.eligibleCount E height →
    s.proposerRegistry.isEligible E proof.assignmentPublicKey height

variable {C E s}

theorem checkReceiptProposer_iff {b : Block} {height parentTime : Nat} {seed : Hash32} {r : PoawxBlockReceipt}
    {ext : Phase20ReceiptExt} {pa : ProposerAssignmentV1} (hext : r.phase20Ext = some ext)
    (hpa : ext.proposerAssignment = some pa) :
    checkReceiptProposer C E s b height seed parentTime r = .ok () ↔
      ProposerBound C E s height seed r pa.proof ∧
        isSelected (proposerPriority pa.proof.vrfOutput) (s.proposerRegistry.eligibleCount E height) pa.round.toNat =
          true ∧
        minTimeForRound parentTime pa.round.toNat (proposerRoundIntervalSecs E) ≤ b.header.time.toNat := by
  simp only [checkReceiptProposer, hext, hpa, bind_eq_ok, orFail_eq_ok, exists_unit, failIf_eq_ok, not_not, not_and,
    not_le, not_lt, Option.some.injEq, exists_eq_left', Bool.not_eq_false, isSelected, decide_eq_true_eq]
  constructor
  · rintro ⟨hvalid, hrole, hseed, hticket, hsolver, hworker, helig, hround⟩
    exact ⟨⟨hvalid, hrole, hseed, hticket, hsolver, hworker, helig⟩, hround⟩
  · rintro ⟨⟨hvalid, hrole, hseed, hticket, hsolver, hworker, helig⟩, hround⟩
    exact ⟨hvalid, hrole, hseed, hticket, hsolver, hworker, helig, hround⟩

end ChainState

/-- What the round cascade is for, at one count of eligible keys and one priority. -/
structure SortitionCascade (n p : UInt64) : Prop where
  widens : ∀ r r', r ≤ r' → isSelected p.toNat n.toNat r → isSelected p.toNat n.toNat r'
  shares : ∀ (n' : UInt64) r, n ≤ n' → proposerThreshold n'.toNat r ≤ proposerThreshold n.toNat r
  late : ∀ r, 3 ≤ r → isSelected p.toNat n.toNat r
  opens : ∀ parent t interval r, 1 ≤ interval → parent ≤ t → t ≤ u32Max → parent + r * interval ≤ u32Max →
    (r ≤ maxRoundForElapsed (t - parent) interval ↔ minTimeForRound parent r interval ≤ t)
  built : ∀ (C : Crypto) (E : NodeEnv) (s : ChainState) (b : Block) (height parent : Nat) (seed : Hash32)
    (receipt : PoawxBlockReceipt) (ext : Phase20ReceiptExt) (pa : ProposerAssignmentV1),
    receipt.phase20Ext = some ext → ext.proposerAssignment = some pa →
    proposerPriority pa.proof.vrfOutput = p.toNat → s.proposerRegistry.eligibleCount E height = n.toNat →
    parent ≤ b.header.time.toNat →
    proposerRound p.toNat n.toNat
      (maxRoundForElapsed (b.header.time.toNat - parent) (proposerRoundIntervalSecs E)) = some pa.round.toNat →
    (ChainState.checkReceiptProposer C E s b height seed parent receipt = .ok () ↔
      ChainState.ProposerBound C E s height seed receipt pa.proof)

theorem sortitionCascade_iff (n p : UInt64) : SortitionCascade n p ↔ p.toNat ≠ u64Max := by
  have hn : n.toNat ≤ u64Max := Nat.le_pred_of_lt n.toNat_lt
  have hp : p.toNat ≤ u64Max := Nat.le_pred_of_lt p.toNat_lt
  have hlate : ∀ r, 3 ≤ r → (isSelected p.toNat n.toNat r ↔ p.toNat ≠ u64Max) := by
    intro r hr
    rw [isSelected, decide_eq_true_eq, proposerThreshold_late hn hr]
    omega
  constructor
  · intro h
    exact (hlate 3 le_rfl).mp (h.late 3 le_rfl)
  · intro hne
    refine ⟨?_, fun n' r h => proposerThreshold_antitone h r, fun r hr => (hlate r hr).mpr hne, ?_, ?_⟩
    · intro r r' hr hsel
      simp only [isSelected, decide_eq_true_eq] at hsel ⊢
      exact hsel.trans_le (proposerThreshold_mono hr n.toNat)
    · intro parent t interval r hi hparent ht hsat
      exact le_maxRoundForElapsed_iff_minTime hi hparent ht hsat
    · intro C E s b height parent seed receipt ext pa hext hpa hprio hcount hparent hround
      have hsel := List.find?_some hround
      have hmem := List.mem_range.mp (List.mem_of_find?_eq_some hround)
      have htime := minTimeForRound_le (le_max_right _ 1) hparent (Nat.le_pred_of_lt b.header.time.toNat_lt)
        (Nat.le_of_lt_succ hmem)
      rw [ChainState.checkReceiptProposer_iff hext hpa, hprio, hcount]
      exact and_iff_left ⟨hsel, htime⟩

theorem highest_priority_unselected :
    isSelected (2 ^ 64 - 1) 20 3 = false ∧ proposerRound (2 ^ 64 - 1) 20 3 = none ∧
      proposerRound (2 ^ 64 - 2) 20 3 = some 3 := by
  decide

end IriumConsensus
