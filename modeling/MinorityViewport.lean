import MinorityViewport.Lib.OrdMap
import MinorityViewport.Lib.BoundedMap
import MinorityViewport.Lib.Exec
import MinorityViewport.Lib.StrictJson
import MinorityViewport.Lib.PrintedJson
import MinorityViewport.Lib.PrintedNumbers
import MinorityViewport.Lib.JsonLeaves
import MinorityViewport.Lib.DynMat
import MinorityViewport.Lib.Frame
import MinorityViewport.Lib.Procrustes
import MinorityViewport.Lib.Poses
import MinorityViewport.Lib.SharedFile
import MinorityViewport.Lib.Blocks
import MinorityViewport.Lib.NarrowLoop
import MinorityViewport.Lib.FreeList
import MinorityViewport.Lib.EraseLoop
import MinorityViewport.Lib.Neighbours
import MinorityViewport.Lib.FixedPoint
import MinorityViewport.Lib.Scanner
import MinorityViewport.Lib.Framing
import MinorityViewport.Lib.Simulation
import MinorityViewport.Lib.Polling
import MinorityViewport.Json.Value
import MinorityViewport.Json.Reader
import MinorityViewport.Json.Machine
import MinorityViewport.Json.Elements
import MinorityViewport.Json.Strings
import MinorityViewport.Json.Printed
import MinorityViewport.Json.Refusals
import MinorityViewport.Json.Provenance
import MinorityViewport.Json.StrictNumbers
import MinorityViewport.Json.StrictStrings
import MinorityViewport.Json.StrictTexts
import MinorityViewport.Data.Skeleton
import MinorityViewport.Data.EncodedSkeleton
import MinorityViewport.Data.RoundTrip
import MinorityViewport.Data.Geometry
import MinorityViewport.Data.Scene
import MinorityViewport.Data.SceneHistory
import MinorityViewport.Misc.Timer
import MinorityViewport.Data.Heap
import MinorityViewport.Data.Client
import MinorityViewport.Data.ClientsList
import MinorityViewport.Algorithms.Viewport
import MinorityViewport.Algorithms.SceneOrder
import MinorityViewport.Algorithms.TotalOrder
import MinorityViewport.Algorithms.TransformSkeleton
import MinorityViewport.Algorithms.CalibrateScenes
import MinorityViewport.Algorithms.RigidCalibration
import MinorityViewport.Algorithms.MergeScenes
import MinorityViewport.Algorithms.MergePlan
import MinorityViewport.Algorithms.GlobalFrame
import MinorityViewport.Algorithms.MergeCoverage
import MinorityViewport.Algorithms.MergeKeys
import MinorityViewport.Algorithms.MergeChain
import MinorityViewport.Algorithms.MergeWrites
import MinorityViewport.Algorithms.MergeSources
import MinorityViewport.Algorithms.ChainEntries
import MinorityViewport.Algorithms.MergeRounds
import MinorityViewport.Algorithms.MergeMatching
import MinorityViewport.Algorithms.WellFormed
import MinorityViewport.Algorithms.Events
import MinorityViewport.Algorithms.NeighbourLinks
import MinorityViewport.Algorithms.Ingest
import MinorityViewport.Algorithms.Landing
import MinorityViewport.Algorithms.SensorLookup
import MinorityViewport.Algorithms.SkeletonOrigins
import MinorityViewport.Algorithms.CallReturns
import MinorityViewport.Algorithms.ClientListing
import MinorityViewport.Algorithms.SceneText
import MinorityViewport.Algorithms.SensorIdText
import MinorityViewport.Algorithms.ClientIds
import MinorityViewport.Algorithms.Deregistration
import MinorityViewport.Algorithms.UnknownRemoval
import MinorityViewport.Algorithms.Registration
import MinorityViewport.Algorithms.SceneOwners
import MinorityViewport.Algorithms.OrderNumbers
import MinorityViewport.Algorithms.NeighbourCalibration
import MinorityViewport.Algorithms.RoomView
import MinorityViewport.Algorithms.StandingPerson
import MinorityViewport.Algorithms.FailedCalls
import MinorityViewport.Algorithms.PointPairs
import MinorityViewport.Algorithms.ReceivedLoops
import MinorityViewport.Algorithms.CalibrationSwap
import MinorityViewport.Networks.Http
import MinorityViewport.Networks.RequestHandler
import MinorityViewport.Networks.RequestSafety
import MinorityViewport.Networks.SharedEndpoint
import MinorityViewport.Networks.ErasedFiles
import MinorityViewport.Networks.RequestParser
import MinorityViewport.Networks.RequestGrammar
import MinorityViewport.Networks.RequestAcceptance
import MinorityViewport.Networks.ReplyText
import MinorityViewport.Networks.Connection
import MinorityViewport.Networks.StaticFiles
import MinorityViewport.Networks.IoServicePool
import MinorityViewport.Networks.UdpServer
import MinorityViewport.Networks.Api
import MinorityViewport.Web.CalibrationPage
import MinorityViewport.Web.Redraw
import MinorityViewport.Web.CommWorker
import MinorityViewport.Core
