import Libcdma.Foundation.WrapCounter
import Libcdma.Foundation.LapRing
import Libcdma.Foundation.CircularFilter
import Libcdma.Foundation.ByteImage
import Libcdma.Foundation.BlockRing
import Libcdma.Foundation.NodeList
import Libcdma.Foundation.WordBitmap
import Libcdma.Model.Types
import Libcdma.Model.Common
import Libcdma.Model.Jfc
import Libcdma.Model.Jfs
import Libcdma.Model.Db
import Libcdma.Foundation.Transition
import Libcdma.CompletionRing
import Libcdma.CompletionWorld
import Libcdma.CompletionCleaning
import Libcdma.CompletionPolling
import Libcdma.SendRing
import Libcdma.RequestCodec
import Libcdma.RequestContexts
import Libcdma.CompletionRouting
import Libcdma.QueueGeometry
import Libcdma.SendQueueSize
import Libcdma.QueueAdmission
import Libcdma.DirectPath
import Libcdma.PostingLists
import Libcdma.DoorbellPages
import Libcdma.DoorbellReuse
import Libcdma.Model.Cmd
import Libcdma.StagingBuffer
import Libcdma.SegmentRequests
import Libcdma.DoorbellList
import Libcdma.Model.Event
import Libcdma.EventWakeups
import Libcdma.Foundation.Ledger
import Libcdma.Model.Queue
import Libcdma.QueueLadders
import Libcdma.QueueLifetimes
import Libcdma.CompletionRoom
import Libcdma.CompletionReports
import Libcdma.Model.Device
import Libcdma.DeviceDiscovery
import Libcdma.DeviceLookup
import Libcdma.Model.Log
import Libcdma.LogRateLimit
import Libcdma.Foundation.Framing
import Libcdma.Foundation.Simulation
import Libcdma.RingDecoding
import Libcdma.QueueThreads
import Libcdma.PostingThread
import Libcdma.QueueInterleaving
import Libcdma.Foundation.Lanes
import Libcdma.QueueIsolation
import Libcdma.QueueStartup
import Libcdma.Foundation.BitFields
import Libcdma.CompletionLayout
import Libcdma.CompletionBytes
import Libcdma.Foundation.Embedding
import Libcdma.Model.Session
import Libcdma.SessionLadders
import Libcdma.Foundation.Progress
import Libcdma.SessionLifetimes
import Libcdma.LogProgress
import Libcdma.QueueProgress
import Libcdma.AsyncEvents
