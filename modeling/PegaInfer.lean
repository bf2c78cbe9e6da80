import PegaInfer.Lib.Autoregressive
import PegaInfer.Glm52.Slot
import PegaInfer.Glm52.Lossless
import PegaInfer.Frontend.Update
import PegaInfer.Frontend.Statement
import PegaInfer.Frontend.Ledger
import PegaInfer.Frontend.Effect
import PegaInfer.Frontend.Life
import PegaInfer.Frontend.Driver
import PegaInfer.Frontend.Simulation
import PegaInfer.Frontend.TerminalOnce
import PegaInfer.Frontend.Teardown
import PegaInfer.Frontend.BurstCut
import PegaInfer.Frontend.Fidelity
import PegaInfer.K3.Fleet
import PegaInfer.K3.Listening
import PegaInfer.K3.Rendezvous
import PegaInfer.K3.Unanimity
import PegaInfer.K3.WhaleWire
import PegaInfer.Offload.Barrier
import PegaInfer.Lib.FramePreserving
import PegaInfer.Kvbm.Store
import PegaInfer.Kvbm.StoreOk
import PegaInfer.Kvbm.Available
import PegaInfer.Kvbm.Sequence
import PegaInfer.Kvbm.SequenceOk
import PegaInfer.Kvbm.Operations
import PegaInfer.Kvbm.WellFormed
import PegaInfer.Kvbm.Quiet
import PegaInfer.KvStore.Pool
import PegaInfer.KvStore.System
import PegaInfer.KvStore.Moves
import PegaInfer.KvStore.Holdings
import PegaInfer.KvStore.PrefixSound
import PegaInfer.KvStore.Budget
import PegaInfer.KvStore.Entitlement
import PegaInfer.KvStore.Floor
import PegaInfer.KvStore.FlushCoverage
import PegaInfer.KvStore.Resolve
import PegaInfer.KvStore.Leases
import PegaInfer.KvStore.Delivered
import PegaInfer.KvStore.ResolveFloor
import PegaInfer.KvStore.Handoff
import PegaInfer.K3.Gang
import PegaInfer.K3.GangAligned
import PegaInfer.Lib.OrderedStreams
import PegaInfer.K3.Doorbell
import PegaInfer.K3.DoorbellSafe
import PegaInfer.Qwen3.Speculative
import PegaInfer.Qwen3.Resolve
import PegaInfer.Qwen3.Plan
import PegaInfer.Qwen3.Scheduler
import PegaInfer.Lib.SwapRemove
import PegaInfer.Qwen3.Life
import PegaInfer.Qwen3.Entries
import PegaInfer.Qwen3.Applied
import PegaInfer.Qwen3.Underway
import PegaInfer.Qwen3.Settled
import PegaInfer.Qwen3.Verified
import PegaInfer.Qwen3.Executed
import PegaInfer.Qwen3.Calm
import PegaInfer.Qwen3.Queues
import PegaInfer.Qwen3.Accounted
import PegaInfer.Qwen3.Stepped
import PegaInfer.Qwen3.NoneLost
import PegaInfer.Qwen3.Commands
import PegaInfer.Qwen3.Lossless
import PegaInfer.Qwen35.TpWorker
import PegaInfer.Qwen35.TpEffect
import PegaInfer.Qwen35.TpExecutor
import PegaInfer.Qwen35.Replicas
import PegaInfer.Lib.PagedRows
import PegaInfer.Gemma4.Kv
import PegaInfer.Gemma4.PrefixCache
import PegaInfer.Gemma4.Checkpoint
import PegaInfer.Gemma4.Held
import PegaInfer.Gemma4.KvInvariant
import PegaInfer.Gemma4.CacheKept
import PegaInfer.Gemma4.Transparent
import PegaInfer.Gemma4.Arena
import PegaInfer.Gemma4.Engine
import PegaInfer.Gemma4.Decode
import PegaInfer.Gemma4.Scheduler
import PegaInfer.Gemma4.Increment
import PegaInfer.Gemma4.Aside
import PegaInfer.Gemma4.Calm
import PegaInfer.Gemma4.Steady
import PegaInfer.KvStore.Arenas
import PegaInfer.K3.WhaleSplit
import PegaInfer.Gemma4.KvAccount
import PegaInfer.Lib.Slices
import PegaInfer.WeightLoader.Fill
import PegaInfer.WeightLoader.Upload
import PegaInfer.WeightLoader.Prepare
import PegaInfer.WeightLoader.Delivered
import PegaInfer.WeightLoader.Stager
import PegaInfer.WeightLoader.StagerInvariant
import PegaInfer.WeightLoader.Exact
import PegaInfer.Frontend.Sampler
import PegaInfer.KimiK2.Lifecycle
import PegaInfer.KimiK2.Scheduler
import PegaInfer.KimiK2.Settled
import PegaInfer.KimiK2.Started
import PegaInfer.KimiK2.Rows
import PegaInfer.KimiK2.Waves
import PegaInfer.KimiK2.Progress
import PegaInfer.DeepSeekV2Lite.Rows
import PegaInfer.DeepSeekV2Lite.Grouping
import PegaInfer.DeepSeekV2Lite.Scheduler
import PegaInfer.DeepSeekV2Lite.Alone
import PegaInfer.DeepSeekV2Lite.Regrouped
import PegaInfer.DeepSeekV2Lite.Round
import PegaInfer.DeepSeekV2Lite.Admission
import PegaInfer.DeepSeekV2Lite.Accounted
import PegaInfer.DeepSeekV2Lite.Transparent
import PegaInfer.Lib.BoundedSort
import PegaInfer.Sample.TopLogprobs
import PegaInfer.Glm52.Plan
import PegaInfer.Glm52.Admission
import PegaInfer.Glm52.Window
import PegaInfer.Glm52.Serve
import PegaInfer.Glm52.SingleRow
import PegaInfer.Glm52.Walked
import PegaInfer.Glm52.Leases
import PegaInfer.Lib.Cbor
import PegaInfer.Offload.VllmHash
import PegaInfer.Kvbm.Rows
import PegaInfer.KvStore.PageRows
import PegaInfer.KvStore.Undo
import PegaInfer.Kvbm.LineageEviction
import PegaInfer.Kvbm.EventBatcher
import PegaInfer.Kvbm.TinyLfu
