import Pvllm.Library.Dict
import Pvllm.Library.Linked
import Pvllm.Library.Refinement
import Pvllm.Library.Slices
import Pvllm.Basic
import Pvllm.Core.FreeQueue
import Pvllm.Core.BlockPool
import Pvllm.Core.FreeQueueCalls
import Pvllm.Core.LayerSpecs
import Pvllm.Core.LayerGroups
import Pvllm.Core.Request
import Pvllm.Core.SingleType
import Pvllm.Core.KVCacheManager
import Pvllm.Library.Descent
import Pvllm.Core.HitLength
import Pvllm.Core.Ownership
import Pvllm.Core.Allocation
import Pvllm.Core.Accounting
import Pvllm.Core.PrefixLookup
import Pvllm.Core.Sched.RequestQueue
import Pvllm.Core.EncoderCache
import Pvllm.Core.EncoderReferences
import Pvllm.Core.EncoderAccounts
import Pvllm.KVTransfer.SimConnector
import Pvllm.Core.Sched.Output
import Pvllm.Core.Sched.Scheduler
import Pvllm.Core.Sched.Outcomes
import Pvllm.Library.LabelledRun
import Pvllm.Core.Tables
import Pvllm.Core.Sched.Run
import Pvllm.Core.Sched.Update
import Pvllm.Core.Sched.Partition
import Pvllm.Core.Sched.Batch
import Pvllm.Core.Sched.Lifecycle
import Pvllm.Core.Sched.Reports
import Pvllm.Core.Sched.Exchange
import Pvllm.Core.Sched.Survivors
import Pvllm.Core.Sched.Progress
import Pvllm.Core.Sched.Identity
import Pvllm.Core.Sched.Plain
import Pvllm.Core.Sched.Order
import Pvllm.Engine.InputProcessor
import Pvllm.Engine.Detokenizer
import Pvllm.Engine.RequestState
import Pvllm.Engine.OutputProcessor
import Pvllm.Engine.Calls
import Pvllm.Engine.StopStrings
import Pvllm.Engine.FanIn
import Pvllm.Core.Sched.Caps
import Pvllm.Core.Sched.Coherence
import Pvllm.Core.Sched.Encoding
import Pvllm.Core.Sched.Budgets
import Pvllm.Core.Sched.References
import Pvllm.Core.Sched.Holders
import Pvllm.Core.Sched.Coverage
import Pvllm.Worker.ModelRunner
import Pvllm.Core.Sched.Message
import Pvllm.Core.Sched.Turnover
import Pvllm.Engine.EncoderAgreement
import Pvllm.Core.Sched.Priority
import Pvllm.Core.HitShape
import Pvllm.Core.Sched.Index
import Pvllm.Core.Sched.Rows
import Pvllm.Core.Hashing
import Pvllm.Core.Sched.Hashes
import Pvllm.KVTransfer.Lookup
import Pvllm.KVTransfer.Publication
import Pvllm.Core.Adoption
import Pvllm.Core.Retention
import Pvllm.Core.Sched.Loads
import Pvllm.Core.Sched.Published
import Pvllm.Core.Sched.Ledger
import Pvllm.Core.Sched.Granted
import Pvllm.Core.Sched.Retained
import Pvllm.Core.Sched.Holding
import Pvllm.Config.ModelDb
import Pvllm.Config.Vllm
import Pvllm.Worker.AttnUtils
import Pvllm.Worker.HybridPages
import Pvllm.Library.Separated
import Pvllm.Library.Occurrence
import Pvllm.KVTransfer.Namespace
import Pvllm.Core.Sched.Isolation
import Pvllm.Core.Sched.Prefills
import Pvllm.Core.Sched.WholePrompts
import Pvllm.Core.Sched.Finishes
import Pvllm.Engine.Stepping
import Pvllm.Engine.Timing
import Pvllm.Engine.DPClient
import Pvllm.Engine.CoreProc
import Pvllm.Engine.MPClient
import Pvllm.Engine.AsyncMPClient
import Pvllm.Engine.SyncMPClient
import Pvllm.Engine.Batching
import Pvllm.Engine.Generate
import Pvllm.Engine.Twins
import Pvllm.Engine.Mirrors
import Pvllm.Core.Sched.CacheUse
import Pvllm.Core.Sharing
import Pvllm.Core.Charge
import Pvllm.Core.Sched.CommonPrefix
import Pvllm.Library.Recency
import Pvllm.Core.PrefixClosure
import Pvllm.Core.Sched.PrefixClosure
import Pvllm.Core.Sched.Walk
import Pvllm.Core.Sched.Totality
import Pvllm.Core.Sched.Exactness
import Pvllm.Sim.Memory
import Pvllm.Core.Sched.Peak
import Pvllm.Library.Backlog
import Pvllm.Core.Sched.Liveness
import Pvllm.Core.Sched.Victims
import Pvllm.Core.Sched.Contents
import Pvllm.Core.Sched.Machine
import Pvllm.Core.Sched.MachineRuns
import Pvllm.Engine.Startup
import Pvllm.Library.Utf8
import Pvllm.Library.BinaryFloat
import Pvllm.Tokenizers.Mock
import Pvllm.Tokenizers.DetokenizerUtils
import Pvllm.Entrypoints.Multimodal
import Pvllm.Entrypoints.Serving
import Pvllm.Entrypoints.Responses
import Pvllm.Sim.Grammar
import Pvllm.Sim.Soundness
