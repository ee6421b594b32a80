import IriumConsensus.BranchWalks
import IriumConsensus.Checkpoints
import IriumConsensus.Emission
import IriumConsensus.Explorer
import IriumConsensus.FinalityQuorum
import IriumConsensus.ForeignTxid
import IriumConsensus.FrozenEligibility
import IriumConsensus.HeaderSources
import IriumConsensus.Lwma
import IriumConsensus.MainnetEnv
import IriumConsensus.MempoolRuns
import IriumConsensus.MerkleProof
import IriumConsensus.MpsoSpend
import IriumConsensus.NipopowProve
import IriumConsensus.NoDoubleSpend
import IriumConsensus.OnceFinal
import IriumConsensus.OrphanPool
import IriumConsensus.PaymentOnce
import IriumConsensus.Persist.WriteOrder
import IriumConsensus.Poawx.AuditRoot
import IriumConsensus.Poawx.Hysteresis
import IriumConsensus.Poawx.RoleWinner
import IriumConsensus.Poawx.Snapshot
import IriumConsensus.Poawx.Sortition
import IriumConsensus.PoolExtension
import IriumConsensus.PoolRoleStore
import IriumConsensus.PoolSessions
import IriumConsensus.PoolWork
import IriumConsensus.RankConverge
import IriumConsensus.RelayFloor
import IriumConsensus.RewardCredit
import IriumConsensus.RewardSchedule
import IriumConsensus.ScriptExact
import IriumConsensus.Settlement.Attestation
import IriumConsensus.Settlement.Endpoints
import IriumConsensus.Settlement.Holdback
import IriumConsensus.Settlement.Lifecycle
import IriumConsensus.Settlement.ProofSets
import IriumConsensus.SignedDigest
import IriumConsensus.Slashing
import IriumConsensus.SpendSafety
import IriumConsensus.Supply
import IriumConsensus.SybilHandshake
import IriumConsensus.VoteCache
import IriumConsensus.WireBinding
