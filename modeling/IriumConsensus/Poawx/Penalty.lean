import IriumConsensus.Lib.FinMap
import IriumConsensus.Network
import IriumConsensus.Pow

namespace IriumConsensus

open FinMaps

inductive PenaltyStatus where
  | clean
  | warned
  | temporarilyReduced
  | suspendedForEpoch
  | slashedPlaceholder
  | slashed
  deriving DecidableEq, Repr

def PenaltyStatus.fromId (b : UInt8) : Option PenaltyStatus :=
  match b.toNat with
  | 0 => some .clean
  | 1 => some .warned
  | 2 => some .temporarilyReduced
  | 3 => some .suspendedForEpoch
  | 4 => some .slashedPlaceholder
  | 5 => some .slashed
  | _ => none

def PenaltyStatus.eligibleForHighTrustRole : PenaltyStatus → Bool
  | .clean | .warned | .temporarilyReduced => true
  | .suspendedForEpoch | .slashedPlaceholder | .slashed => false

def PenaltyStatus.weightMultiplierPermille : PenaltyStatus → Nat
  | .clean | .warned => 1000
  | .temporarilyReduced => 500
  | .suspendedForEpoch | .slashedPlaceholder | .slashed => 0

def u32Max : Nat := 2 ^ 32 - 1
def u64Max : Nat := 2 ^ 64 - 1
def u128Max : Nat := 2 ^ 128 - 1

structure PenaltyRecord where
  status : PenaltyStatus := .clean
  invalidCount : Nat := 0
  validCount : Nat := 0
  suspendedUntilEpoch : Nat := 0
  lastUpdateHeight : Nat := 0
  slashCount : Nat := 0
  deriving DecidableEq, Repr

def PenaltyRecord.slash (r : PenaltyRecord) (height : Nat) : PenaltyRecord :=
  { r with
    slashCount := min (r.slashCount + 1) u32Max
    status := .slashed
    lastUpdateHeight := max r.lastUpdateHeight height }

def PenaltyRecord.unslash (r : PenaltyRecord) : PenaltyRecord :=
  { r with
    slashCount := r.slashCount - 1
    status := if r.slashCount - 1 = 0 ∧ r.status = .slashed then .clean else r.status }

abbrev Offence := Pkh × UInt64 × UInt8

structure PersistentPenalty where
  records : FinMap Pkh PenaltyRecord := ∅
  offences : Finset Offence := ∅
  deriving DecidableEq

def PersistentPenalty.recentOffenceCount (p : PersistentPenalty) (sinceHeight : Nat) : Nat :=
  (p.offences.filter fun o => sinceHeight ≤ o.2.1.toNat).card

def PersistentPenalty.status (p : PersistentPenalty) (pkh : Pkh) : PenaltyStatus :=
  ((p.records.lookup pkh).map PenaltyRecord.status).getD .clean

def PersistentPenalty.isSlashed (p : PersistentPenalty) (pkh : Pkh) : Bool := p.status pkh = .slashed

def PersistentPenalty.isOffenceRecorded (p : PersistentPenalty) (o : Offence) : Bool := o ∈ p.offences

def PersistentPenalty.applySlash (p : PersistentPenalty) (o : Offence) (height : Nat) : PersistentPenalty :=
  if o ∈ p.offences then p
  else
    { records := p.records.insert o.1 (((p.records.lookup o.1).getD {}).slash height)
      offences := insert o p.offences }

def PersistentPenalty.revertSlash (p : PersistentPenalty) (o : Offence) : PersistentPenalty :=
  if o ∉ p.offences then p
  else
    { records :=
        match p.records.lookup o.1 with
        | some rec =>
          if rec.unslash.slashCount = 0 then p.records.erase o.1
          else p.records.insert o.1 rec.unslash
        | none => p.records
      offences := p.offences.erase o }

section

variable (E : NodeEnv) (height : Nat)

def penaltyStateActive : Bool := poawxGate E .penaltyState height
def penaltyStateEnforced : Bool := poawxEnforced E .penaltyState .penaltyState height

end

end IriumConsensus
