import Eems.Basic.Numbering
import Eems.Basic.Calendar
import Eems.Basic.OrderedMap
import Eems.Basic.PrefixRange
import Eems.Basic.Hoare
import Eems.Basic.Numeral
import Eems.Bytes
import Eems.Schema
import Eems.StoreService
import Eems.Title
import Eems.TitleForm
import Eems.TitleYears
import Eems.Composer
import Eems.Directory
import Eems.MovieScanner
import Eems.Basic.ListedTree
import Eems.Basic.Ownership
import Eems.Library
import Eems.FreshBatches
import Eems.Basic.Journal
import Eems.Opening
import Eems.PutItems
import Eems.Scanning
import Eems.ScanRuns
import Eems.ReachableLibrary
import Eems.Placement
import Eems.LibraryLog
import Eems.ScanPlacement
import Eems.MoviesFolder
import Eems.ScanCoverage
import Eems.LibraryRenaming
import Eems.PlanFamily
import Eems.ScanOrder
import Eems.NextIds
import Eems.SuccessiveScans
import Eems.Startup
import Eems.XmlSerialization
import Eems.DidlElements
import Eems.Http
import Eems.ContentService
import Eems.ContentRange
import Eems.BodyLoop
import Eems.Upnp
import Eems.Basic.Paging
import Eems.BrowsePaging
import Eems.ContentUrls
import Eems.DiscoveryService
import Eems.Basic.Framing
import Eems.Server
import Eems.ServerFraming
import Eems.BrowseAnswers
import Eems.Sidecars
import Eems.ReleaseDates
import Eems.FolderNames
import Eems.Basic.ComparatorStore
import Eems.KeyBytes
import Eems.LevelDb
import Eems.Confinement
import Eems.Crawl
import Eems.Unanswered
import Eems.Basic.Schedule
import Eems.Connections
import Eems.IoContext
import Eems.Basic.Resume
import Eems.Downloads
import Eems.PartialScans
import Eems.FirstStart
import Eems.ControlPoint
import Eems.StoreClients
import Eems.Config
import Eems.StoredTexts
import Eems.Mirror
