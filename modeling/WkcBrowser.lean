import WkcBrowser.Lib.Drain
import WkcBrowser.Mhtml.Archive
import WkcBrowser.Wtf.StringImpl
import WkcBrowser.Mhtml.Serialize
import WkcBrowser.Mhtml.SerializeResource
import WkcBrowser.Mhtml.SerializeWalk
import WkcBrowser.Mhtml.SerializeCall
import WkcBrowser.Mhtml.SerializeRun
import WkcBrowser.Mhtml.ChunkIndependence
import WkcBrowser.Lib.Loop
import WkcBrowser.Mhtml.Parse
import WkcBrowser.Mhtml.ParseTurn
import WkcBrowser.Mhtml.ParseHeader
import WkcBrowser.Mhtml.ParseContent
import WkcBrowser.Mhtml.ParsePart
import WkcBrowser.Mhtml.RoundTrip
import WkcBrowser.Mhtml.ParseInvariants
import WkcBrowser.Mhtml.BufferSize
import WkcBrowser.Mhtml.AnnouncedSize
import WkcBrowser.Lib.Interaction
import WkcBrowser.Network.ResourceResponse
import WkcBrowser.Network.ResourceHandle
import WkcBrowser.Network.ResourceHandleManager
import WkcBrowser.Network.Callbacks
import WkcBrowser.Network.DownloadTimer
import WkcBrowser.Network.Ledger
import WkcBrowser.Network.JobLists
import WkcBrowser.Network.Steady
import WkcBrowser.Network.TimerTurn
import WkcBrowser.Network.Wakeup
import WkcBrowser.Network.Life
import WkcBrowser.Network.Views
import WkcBrowser.Network.Clients
import WkcBrowser.Network.Reports
import WkcBrowser.Network.Starts
import WkcBrowser.Network.Endings
import WkcBrowser.Network.LoadEnd
import WkcBrowser.Network.HeaderBlocks
import WkcBrowser.Network.HeaderDelivery
import WkcBrowser.Lib.Along
import WkcBrowser.Memory.TCSystemAlloc
import WkcBrowser.Network.ClientCertificates
import WkcBrowser.Network.RedirectChain
import WkcBrowser.Network.ResourceHandleManagerSSL
import WkcBrowser.Buffer.ByteVector
import WkcBrowser.Buffer.SharedBuffer
import WkcBrowser.Lib.Chunks
import WkcBrowser.Buffer.Appending
import WkcBrowser.Buffer.Observations
import WkcBrowser.Network.Schedule
import WkcBrowser.Network.Kept
import WkcBrowser.Network.Scheduling
import WkcBrowser.Network.ScheduleRuns
import WkcBrowser.Network.CookieDeletion
import WkcBrowser.Network.Pacing
import WkcBrowser.Lib.Bytes
import WkcBrowser.PropertyList.Plan
import WkcBrowser.PropertyList.Serializer
import WkcBrowser.Lib.Provided
import WkcBrowser.PropertyList.Objects
import WkcBrowser.PropertyList.Planning
import WkcBrowser.Lib.Writer
import WkcBrowser.PropertyList.Emission
import WkcBrowser.PropertyList.Serialization
import WkcBrowser.PropertyList.Agreement
import WkcBrowser.PropertyList.Format
import WkcBrowser.PropertyList.Nodes
import WkcBrowser.PropertyList.Readback
import WkcBrowser.PropertyList.RoundTrip
import WkcBrowser.Loader.CrossOriginAccessControl
import WkcBrowser.Loader.DocumentThreadableLoader
import WkcBrowser.Loader.CrossOriginData
import WkcBrowser.Lib.Agenda
import WkcBrowser.Loader.Requests
import WkcBrowser.Loader.Stalls
import WkcBrowser.Loader.PendingQueues
import WkcBrowser.Xml.XMLHttpRequest
import WkcBrowser.Xml.Reentrancy
import WkcBrowser.Xml.Endings
import WkcBrowser.Xml.Handlers
import WkcBrowser.Lib.BinaryHeap
import WkcBrowser.Platform.ThreadTimers
import WkcBrowser.Platform.TimerHeap
import WkcBrowser.Platform.TimerOrder
import WkcBrowser.Lib.LinkedList
import WkcBrowser.Loader.Cache
import WkcBrowser.Loader.CacheEntries
import WkcBrowser.Graphics.IntRect
import WkcBrowser.Page.SpatialNavigation
import WkcBrowser.Graphics.ComplexText
import WkcBrowser.Lib.OrderedTree
import WkcBrowser.Dom.NodeTraversal
import WkcBrowser.Page.FocusController
import WkcBrowser.Page.FlatPage
import WkcBrowser.Lib.Splitting
import WkcBrowser.Network.AuthenticationChallenge
import WkcBrowser.Network.ProtectionSpaces
import WkcBrowser.Dom.Node
import WkcBrowser.Dom.Forest
import WkcBrowser.Dom.ContainerNode
import WkcBrowser.Dom.Mutations
import WkcBrowser.Lib.Calendar
import WkcBrowser.Html.ISODateTime
import WkcBrowser.Html.CalendarDates
import WkcBrowser.Html.DateText
import WkcBrowser.Html.Weeks
import WkcBrowser.Html.DateTimes
import WkcBrowser.Dom.EventTarget
import WkcBrowser.Dom.ListenerVectors
import WkcBrowser.Dom.EventDispatch
import WkcBrowser.Dom.ListenerOperations
import WkcBrowser.WebSockets.WebSocketChannel
import WkcBrowser.WebSockets.WebSocketHandshake
import WkcBrowser.WebSockets.HandshakeReads
import WkcBrowser.WebSockets.Handshakes
import WkcBrowser.WebSockets.Items
import WkcBrowser.WebSockets.FrameLoop
import WkcBrowser.WebSockets.ChunkIndependence
import WkcBrowser.WebSockets.ClosingClients
import WkcBrowser.Dom.DocumentOrder
import WkcBrowser.Lib.Cursor
import WkcBrowser.Lib.TreeOrder
import WkcBrowser.Dom.NodeIterator
import WkcBrowser.Dom.IteratorRemovals
import WkcBrowser.Url.Components
import WkcBrowser.Url.KURL
import WkcBrowser.Url.SecurityOrigin
import WkcBrowser.Url.Authorities
import WkcBrowser.Url.OriginIdentifiers
import WkcBrowser.Url.SameOrigins
import WkcBrowser.History.LeastRecent
import WkcBrowser.History.PageCache
import WkcBrowser.Storage.QuotaAccounting
import WkcBrowser.Storage.StorageMap
import WkcBrowser.Storage.SharedMaps
import WkcBrowser.Dom.NodeList
import WkcBrowser.Dom.NodeListCaches
import WkcBrowser.Html.HTMLCollection
import WkcBrowser.Lib.Walks
import WkcBrowser.Html.CollectionCaches
import WkcBrowser.Lib.Partition
import WkcBrowser.XPath.NodeSet
import WkcBrowser.XPath.Precedence
import WkcBrowser.XPath.BlockSort
import WkcBrowser.Dom.ElementIds
import WkcBrowser.Dom.IdLookups
import WkcBrowser.Dom.IdCounts
import WkcBrowser.Dom.IdChanges
import WkcBrowser.Dom.IdAgreement
import WkcBrowser.Graphics.BitmapImage
import WkcBrowser.Graphics.DecodedSize
import WkcBrowser.Network.FormDataBuilder
import WkcBrowser.Wtf.UTF8
import WkcBrowser.Runtime.GlobalFunctions
import WkcBrowser.Runtime.EscapeRoundTrips
import WkcBrowser.Url.EscapeSequences
import WkcBrowser.History.BackForwardList
import WkcBrowser.History.BackForwardRuns
import WkcBrowser.Loader.ByteOrderMarks
import WkcBrowser.Loader.TextResourceDecoder
import WkcBrowser.Url.Resolution
import WkcBrowser.Url.BufferBounds
import WkcBrowser.Url.Setters
import WkcBrowser.Url.Canonical
import WkcBrowser.Url.DotRemoval
import WkcBrowser.Url.SetterEffects
import WkcBrowser.Lib.SegmentStack
import WkcBrowser.Url.PathSegments
import WkcBrowser.Url.RelativePaths
import WkcBrowser.Network.FormDataStream
import WkcBrowser.Network.UploadSizes
import WkcBrowser.Network.AllowedHosts
import WkcBrowser.Mhtml.ParseBounds
import WkcBrowser.Lib.Scan
import WkcBrowser.Feed.DateTimeParsers
import WkcBrowser.Feed.Words
import WkcBrowser.Feed.W3CDates
import WkcBrowser.Feed.DateGrammar
import WkcBrowser.Lib.Rearranged
import WkcBrowser.Feed.FeedItems
import WkcBrowser.Lib.Probing
import WkcBrowser.Runtime.PropertyMapHashTable
import WkcBrowser.Runtime.PropertyProbes
import WkcBrowser.Runtime.PropertyTables
import WkcBrowser.Runtime.PropertyOrder
import WkcBrowser.Graphics.PathPolygon
import WkcBrowser.Lib.ClosedLine
import WkcBrowser.Graphics.RayCrossings
import WkcBrowser.Wtf.TextCodecUTF16
import WkcBrowser.Wtf.Base64
import WkcBrowser.Wtf.CaseMapping
import WkcBrowser.Graphics.GIFImageReader
import WkcBrowser.Loader.WKCDownload
import WkcBrowser.Wtf.Deque
import WkcBrowser.Wtf.HashTable
import WkcBrowser.Graphics.ImageDecoder
import WkcBrowser.Lib.Incremental
import WkcBrowser.Loader.LiveDecoded
import WkcBrowser.Wtf.StringSearch
