import PiPlatform.EventFabric.Bus.SetOrder
import PiPlatform.EventFabric.Bus.ExactlyOnce
import PiPlatform.EventFabric.Bus.Tenants
import PiPlatform.EventFabric.Port.Migration
import PiPlatform.EventFabric.Port.Validation
import PiPlatform.EventFabric.Governance.Decisions
import PiPlatform.EventFabric.Port.Governance
import PiPlatform.EventFabric.Port.Canonical
import PiPlatform.EventFabric.Ordering.Freezing
import PiPlatform.EventFabric.Schema.Reopened
import PiPlatform.EventFabric.Registries
import PiPlatform.Interceptor.Ledger
import PiPlatform.Interceptor.Approvals
import PiPlatform.Production.AuditLog
import PiPlatform.Production.SnapshotChains
import PiPlatform.Production.Isolation
import PiPlatform.EventFabric.Bus.CausalityDag
import PiPlatform.EventFabric.Replay.Snapshots
import PiPlatform.AgentChain.StateLedger
import PiPlatform.AgentChain.PipelineRun
import PiPlatform.AgentChain.Hooks
import PiPlatform.AgentChain.Provenance
import PiPlatform.Orchestrator.Scheduler
import PiPlatform.Orchestrator.Consensus
import PiPlatform.Orchestrator.Checkpoint
import PiPlatform.Orchestrator.MemoryDrift
import PiPlatform.Interoperability.Composition
import PiPlatform.Interoperability.Execution
import PiPlatform.AgentChain.FsmTraffic
import PiPlatform.AgentChain.IngressParser
import PiPlatform.AgentChain.BodyRedaction
import PiPlatform.AgentChain.ProtobufProbe
import PiPlatform.AgentChain.ContentAddress
import PiPlatform.Interoperability.TemporalReplay
import PiPlatform.Interoperability.TrustedIngestion
import PiPlatform.Mesh.Reproducibility
import PiPlatform.Runtime.SquadLedger
import PiPlatform.Runtime.SnapshotPruning
import PiPlatform.Interceptor.Surplus
import PiPlatform.ConnectorFabric.Reach
import PiPlatform.ConnectorFabric.TwinReplay
import PiPlatform.ConnectorFabric.Normalizer
import PiPlatform.Console.DependencyOrder
import PiPlatform.Radius.RiskReport
import PiPlatform.Interceptor.ChatProxy
import PiPlatform.SemanticDiff.CleanDiff
import PiPlatform.EventFabric.Schema.ShortestPath
import PiPlatform.EventFabric.Replay.Bisect
import PiPlatform.Interceptor.RateLimiter
import PiPlatform.IdeRe.MemoryTiers
import PiPlatform.EventFabric.Ordering.Checkpoints
import PiPlatform.EventFabric.Ordering.Merge
import PiPlatform.Interoperability.TrustEvidence
import PiPlatform.Extensions.PolicyLaws
import PiPlatform.AgentChain.ArtifactRegistry
import PiPlatform.Interoperability.DeferredTools
import PiPlatform.Interoperability.SemanticIndex
import PiPlatform.Orchestrator.Recovery
import PiPlatform.AgentChain.ReplayEquivalence
import PiPlatform.Extensions.Inspector
import PiPlatform.Production.Tokens
import PiPlatform.Interoperability.DriftPropagation
import PiPlatform.Interoperability.CompositionPlanner
import PiPlatform.IdeRe.CheckpointCodec
import PiPlatform.Interoperability.TransitiveClosure
import PiPlatform.SemanticValidator.BlastDepth
import PiPlatform.IdeRe.Playbook
import PiPlatform.IdeRe.ArtifactStore
import PiPlatform.Console.Quotas
import PiPlatform.EventFabric.Replay.Reconstruct
import PiPlatform.Interoperability.ExecutionFabric
import PiPlatform.Interoperability.TenantRegistry
