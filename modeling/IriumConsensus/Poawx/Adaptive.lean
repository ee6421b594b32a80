import IriumConsensus.Network

namespace IriumConsensus

inductive AdaptiveMode where
  | normal
  | caution
  | defense
  | recovery
  deriving DecidableEq, Repr

structure NetworkSignals where
  activeMinerCount : Nat
  validRoleCount : Nat
  recentInvalidWork : Nat
  recentReorgSignal : Nat
  rewardConcentrationPermille : Nat
  finalityAvailable : Bool
  deriving DecidableEq, Repr

def cautionMinMiners : Nat := 3
def cautionMinRoles : Nat := 3
def defenseInvalidWork : Nat := 5
def defenseReorgSignal : Nat := 2
def defenseConcentrationPermille : Nat := 700

namespace NetworkSignals

variable (s : NetworkSignals)

def isDefense : Bool :=
  defenseInvalidWork ≤ s.recentInvalidWork ∨ defenseReorgSignal ≤ s.recentReorgSignal ∨
    defenseConcentrationPermille ≤ s.rewardConcentrationPermille

def isLowParticipation : Bool :=
  s.activeMinerCount < cautionMinMiners ∨ s.validRoleCount < cautionMinRoles

def isStable : Bool :=
  s.recentInvalidWork = 0 ∧ s.recentReorgSignal = 0 ∧
    s.rewardConcentrationPermille < defenseConcentrationPermille

end NetworkSignals

/-- The mode of the policy that `assess` returns. -/
def assess (s : NetworkSignals) (priorMode : AdaptiveMode) : AdaptiveMode :=
  if s.isDefense then .defense
  else if priorMode = .defense ∧ s.isStable then .recovery
  else if s.isLowParticipation then .caution
  else if priorMode = .recovery then
    if s.isStable then .normal else .recovery
  else .normal

def adaptiveModeActive (E : NodeEnv) (height : Nat) : Bool := poawxGate E .adaptiveMode height

end IriumConsensus
