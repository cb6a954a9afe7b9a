import SextantTree.FsckExact
import SextantTree.WindowSpec
import SextantTree.SuperblockRun
import SextantTree.CacheLifetime
import SextantTree.LeafCacheBudget
import SextantTree.ClusterStageSpec
import SextantTree.ViewBatch
import SextantTree.BruteForce
import SextantTree.LloydSpec
import SextantTree.PlanePaths
import SextantTree.PrqContents
import SextantTree.QuantBlobs
import SextantTree.TopkCut
import SextantTree.PoolCover
import SextantTree.GeoPrune
import SextantTree.SummaryRepair
import SextantTree.CodesSurvive
import SextantTree.LeafDelete
import SextantTree.RowCount
import SextantTree.SearchRun
import SextantTree.MaintenanceRun
import SextantTree.PayloadRun
import SextantTree.RoutingRun
import SextantTree.PlaneSelect
import SextantTree.CandFlush
import SextantTree.LeafCacheShards
import SextantTree.CardinalityRoundTrip
import SextantTree.CardinalityBlobBounds
import SextantTree.PushSets
import SextantTree.GlobStream
import SextantTree.FrequencyCount
import SextantTree.Estimate
import SextantTree.PackedCoder
import SextantTree.TailLanes
import SextantTree.GlobalRerank
import SextantTree.CodeDistance
import SextantTree.FilterDataSpec
import SextantTree.RowBiasSpec
import SextantTree.SampleDraw
import SextantTree.ColumnAppend
import SextantTree.DotKernelsSpec
import SextantTree.LocalKeysSpec
import SextantTree.BlockCacheSpec
