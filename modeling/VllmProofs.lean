import VllmProofs.Block.RequestEpoch
import VllmProofs.Scheduler.Runs
import VllmProofs.V1.GeneratedHashes
import VllmProofs.V1.GreedyVerification
import VllmProofs.V1.EncoderSlots
import VllmProofs.V1.CommonPrefix
import VllmProofs.Frontend.ParallelSampling
import VllmProofs.SpecDecode.JointLaw
import VllmProofs.Frontend.MultiModalHasher
import VllmProofs.SpecDecode.DraftCoverage
import VllmProofs.Distributed.GroupRuns
import VllmProofs.Distributed.VocabParallel
import VllmProofs.AsyncEngine.TrackerRuns
import VllmProofs.Outputs.DeltaRuns
import VllmProofs.Frontend.StopStrings
import VllmProofs.V1.ReorderBatch
import VllmProofs.Lora.AdapterRuns
import VllmProofs.Distributed.ShmRuns
import VllmProofs.V1.FreeQueueRuns
import VllmProofs.V1.NgramProposer
import VllmProofs.V1.ChunkedContext
import VllmProofs.V1.InputLayout
import VllmProofs.Evictor.ArithmeticErrors
import VllmProofs.Frontend.LoRATracking
import VllmProofs.Evictor.LruStack
import VllmProofs.Evictor.RripVictim
import VllmProofs.Block.LastReference
import VllmProofs.Block.ChainAppend
import VllmProofs.Frontend.ReasoningStream
import VllmProofs.Outputs.MultiStepRuns
import VllmProofs.Scheduler.Partition
import VllmProofs.Lora.ActivationErrors
import VllmProofs.Benchmarks.Rebalancing
import VllmProofs.Multimodal.MatchSpacing
import VllmProofs.Multimodal.PlaceholderLayout
import VllmProofs.Block.CacheMetric
import VllmProofs.Distributed.SimpleBuffer
import VllmProofs.ModelExecutor.SamplingSteps
import VllmProofs.SpecDecode.ExpansionScores
import VllmProofs.SpecDecode.MultiStepPasses
import VllmProofs.SpecDecode.VerifyRows
import VllmProofs.V1.PrefixCachingMetrics
