import OpenRoad.DbEcoSession
import OpenRoad.CtsSinkClusters
import OpenRoad.DbConnectRestore
import OpenRoad.DbGroup
import OpenRoad.DbHashTable
import OpenRoad.DbInstRestore
import OpenRoad.DbJournalFormat
import OpenRoad.DbJournalScan
import OpenRoad.DbMergeNet
import OpenRoad.DbModuleLookup
import OpenRoad.DbPagedVector
import OpenRoad.DbTableEnumeration
import OpenRoad.DbTableReread
import OpenRoad.DbWireAppendDecode
import OpenRoad.DbWireSegmentEncoded
import OpenRoad.DftDomains
import OpenRoad.DftStitchRun
import OpenRoad.DplCheckRegion
import OpenRoad.DplClumpLegal
import OpenRoad.DplEdgeWindow
import OpenRoad.DplFillerRow
import OpenRoad.DplJournal
import OpenRoad.DplMirror
import OpenRoad.DplSearch
import OpenRoad.DplSegmentsRow
import OpenRoad.DplShiftOptimal
import OpenRoad.DrtConnShrink
import OpenRoad.DrtGuideTouching
import OpenRoad.DrtKDTree
import OpenRoad.DrtMazeRun
import OpenRoad.DrtPatchReach
import OpenRoad.DrtSpacingCost
import OpenRoad.GrtMonotonicRight
import OpenRoad.GrtOverlap
import OpenRoad.GrtRecover
import OpenRoad.GrtRestore
import OpenRoad.GrtSwapSteiner
import OpenRoad.IfpDomainRows
import OpenRoad.IfpHybridRows
import OpenRoad.MplBestResult
import OpenRoad.MplDeadSpace
import OpenRoad.ParCutOverlay
import OpenRoad.ParGainHeap
import OpenRoad.ParGreedyRefine
import OpenRoad.ParMoveBalance
import OpenRoad.ParTimedPass
import OpenRoad.ParTiming
import OpenRoad.PplAnnealingPlaced
import OpenRoad.PplFallback
import OpenRoad.PplGroupSound
import OpenRoad.PplPinObjective
import OpenRoad.PplSectionsSound
import OpenRoad.RszBufferedTree
