import FileMover.Framework.Program
import FileMover.Framework.Safety
import FileMover.Model.Text
import FileMover.Model.Errno
import FileMover.Model.Job
import FileMover.Model.Filesystem
import FileMover.Model.Database
import FileMover.Model.Calls
import FileMover.Model.FsOps
import FileMover.Model.JobStore
import FileMover.Model.Mover
import FileMover.Model.Router
import FileMover.Engine.Protocol
import FileMover.Engine.Refinement
import FileMover.Engine.Runs
import FileMover.Engine.SourceKept
import FileMover.Engine.NoClobber
import FileMover.Engine.Delivery
import FileMover.Engine.Execution
import FileMover.Engine.Outcomes
import FileMover.Engine.Recovery
import FileMover.Framework.Guarded
import FileMover.Store.Connections
import FileMover.Manager.Dispatch
import FileMover.Manager.Registry
import FileMover.Manager.Cancellation
import FileMover.Manager.Worker
import FileMover.Manager.Stranding
import FileMover.Manager.Durability
import FileMover.Manager.Service
import FileMover.Manager.Underway
import FileMover.Manager.Departed
import FileMover.Manager.Retries
import FileMover.Engine.Race
import FileMover.Engine.Contention
import FileMover.Engine.LaterFile
import FileMover.Framework.Utf8
import FileMover.Json.Grammar
import FileMover.Json.Strings
import FileMover.Json.Numbers
import FileMover.Json.Language
import FileMover.Json.Printing
import FileMover.Model.Codec
import FileMover.Api.RoundTrip
import FileMover.Http.Head
import FileMover.Model.HttpService
import FileMover.Http.Segments
import FileMover.Http.Replies
import FileMover.Model.Frontend
import FileMover.Api.Messages
import FileMover.Api.Bodies
import FileMover.Manager.Claims
import FileMover.Api.Paths
import FileMover.Model.Events
import FileMover.Events.Subscribers
import FileMover.Model.Pool
import FileMover.Server.Conservation
import FileMover.Framework.Monitor
import FileMover.Model.Locks
import FileMover.Manager.Locking
import FileMover.Manager.Restart
import FileMover.Framework.Keyed
import FileMover.Model.Statements
import FileMover.Http.Lengths
import FileMover.Http.Reading
import FileMover.Store.Book
import FileMover.Model.Sequence
import FileMover.Store.Numbers
import FileMover.Manager.Filing
import FileMover.Manager.Ids
import FileMover.Api.Recorded
import FileMover.Manager.Refusals
import FileMover.Manager.Verdicts
import FileMover.Manager.DueList
import FileMover.Manager.Shutdown
import FileMover.Engine.Validation
import FileMover.Manager.Attempts
import FileMover.Manager.Turns
import FileMover.Manager.Pacing
import FileMover.Manager.Backoff
import FileMover.Framework.Calendar
import FileMover.Framework.Numeral
import FileMover.Manager.RetryIds
import FileMover.Model.EventLog
import FileMover.Model.RenameTemplate
import FileMover.Log.Stamps
import FileMover.Template.Expansion
import FileMover.Framework.History
import FileMover.Ini.Documented
import FileMover.Ini.Loading
import FileMover.Ini.Reports
import FileMover.Ini.Contract
import FileMover.Daemon.Residue
import FileMover.Model.JsonCursor
import FileMover.Json.Cursor
import FileMover.Store.Agreement
import FileMover.Manager.Published
import FileMover.Framework.Condition
import FileMover.Manager.Wakeups
import FileMover.Events.Rounds
import FileMover.Events.Wakeups
import FileMover.Server.Wakeups
import FileMover.Model.StoreOpen
import FileMover.Store.Opening
import FileMover.Store.Openers
