import Optics.Math.Transition
import Optics.Math.Savepoints
import Optics.Libs.Queue
import Optics.Libs.Merkle
import Optics.Libs.Message
import Optics.Core.Common
import Optics.Core.Home
import Optics.Core.HomeHistory
import Optics.Core.HomeInvariant
import Optics.Core.Replica
import Optics.Core.ReplicaCalls
import Optics.Core.ReplicaInvariant
import Optics.Core.ReplicaReentrancy
import Optics.Core.XAppConnectionManager
import Optics.Core.Failed
import Optics.Core.UpdaterManager
import Optics.Core.UpdaterRotation
import Optics.Core.WatcherSignatures
import Optics.Math.Log
import Optics.Core.AcceptableRoots
import Optics.Core.Witnesses
import Optics.Channel.Authenticity
import Optics.Channel.HonestSigners
import Optics.Channel.Accountability
import Optics.Channel.OptimisticWindow
import Optics.Provider.OpticsMessage
import Optics.Provider.Fetch
import Optics.Provider.Inclusion
import Optics.Accumulator.Incremental
import Optics.Agents.OpticsDB
import Optics.Agents.Prover
import Optics.Agents.ProverSync
import Optics.Agents.Processor
import Optics.Bridge.BridgeMessage
import Optics.Math.Escrow
import Optics.Bridge.BridgeToken
import Optics.Bridge.Encoding
import Optics.Bridge.BridgeRouter
import Optics.Bridge.RouterEffects
import Optics.Bridge.Parsing
import Optics.Bridge.RouterRuns
import Optics.Bridge.Invariant
import Optics.Bridge.Backing
import Optics.Bridge.Registry
import Optics.Governance.GovernanceMessage
import Optics.Governance.GovernanceRouter
import Optics.Governance.Network
import Optics.Math.Token
import Optics.Math.Trail
import Optics.Governance.RouterCalls
import Optics.Governance.Recovery
import Optics.Governance.Announcements
import Optics.Governance.RemoteCalls
import Optics.Governance.OneGovernor
import Optics.Governance.Convergence
import Optics.Core.HomeMessages
import Optics.Core.MessageIdentity
import Optics.Agents.KeyValue
import Optics.Agents.MessageIndex
import Optics.Accumulator.Agreement
import Optics.Agents.Updater
import Optics.Agents.UpdateSubmitter
import Optics.Agents.Digests
import Optics.Agents.UpdaterPause
import Optics.Agents.ReplicaProcessor
import Optics.Agents.UpdateHandler
import Optics.Agents.Tables
import Optics.Agents.HomeView
import Optics.Agents.Watcher
import Optics.Agents.WatcherRuns
import Optics.Provider.MessageFormat
import Optics.Agents.ContractSync
import Optics.Bridge.FastLiquidity
import Optics.Provider.BridgeMessage
import Optics.Bridge.Grammar
import Optics.Models.Home
import Optics.Models.Replica
import Optics.Models.Fraud
import Optics.Models.Simulation
import Optics.Bridge.Details
import Optics.Agents.LeafProofs
import Optics.Agents.CatchUp
import Optics.Agents.UpdateIndexes
import Optics.Libs.QueueList
import Optics.Bridge.Permit
import Optics.Bridge.EncodingExact
import Optics.Math.Calls
import Optics.Upgradable.Contracts
import Optics.Upgradable.Transparency
import Optics.Upgradable.Authority
import Optics.Agents.Relayer
import Optics.Math.StableSort
import Optics.Agents.EventIndexer
import Optics.Core.HomeMachine
import Optics.Core.HomeSimulation
import Optics.Agents.FailureResponse
import Optics.Math.Loops
import Optics.Governance.Draining
import Optics.Deployment.Chain
import Optics.Deployment.Script
import Optics.Deployment.Stages
import Optics.Deployment.Calls
import Optics.Deployment.Proxies
import Optics.Deployment.Contracts
import Optics.Deployment.Enrollment
import Optics.Deployment.Handover
import Optics.Deployment.Checks
import Optics.Deployment.Correct
import Optics.Deployment.Result
import Optics.Deployment.Leftovers
