import Aion2Hub.Lib.Exec
import Aion2Hub.Lib.Sql
import Aion2Hub.Lib.Integrity
import Aion2Hub.Lib.Load
import Aion2Hub.Lib.Transaction
import Aion2Hub.Lib.References
import Aion2Hub.Lib.Relate
import Aion2Hub.Lib.Js
import Aion2Hub.Lib.Query
import Aion2Hub.Lib.Window
import Aion2Hub.Lib.Cycle
import Aion2Hub.Lib.Date
import Aion2Hub.Lib.Host
import Aion2Hub.Storage.Schema
import Aion2Hub.Storage.Characters
import Aion2Hub.Storage.Planner
import Aion2Hub.Storage.BuildScore
import Aion2Hub.Storage.Economy
import Aion2Hub.Storage.Loot
import Aion2Hub.Storage.Notices
import Aion2Hub.Storage.Backup
import Aion2Hub.Storage.Restore
import Aion2Hub.Storage.Db
import Aion2Hub.Storage.Lifecycle
import Aion2Hub.Lib.Frame
import Aion2Hub.Storage.Footprint
import Aion2Hub.Storage.Open
import Aion2Hub.Storage.References
import Aion2Hub.Backup.Parents
import Aion2Hub.Storage.Integrity
import Aion2Hub.Backup.Replace
import Aion2Hub.Backup.Codec
import Aion2Hub.Backup.RoundTrip
import Aion2Hub.Backup.Atomic
import Aion2Hub.Storage.Persist
import Aion2Hub.Notices.Scheduler
import Aion2Hub.Planner.Period
import Aion2Hub.Web.Period
import Aion2Hub.Planner.Preset
import Aion2Hub.Planner.Today
import Aion2Hub.Planner.Charge
import Aion2Hub.Planner.Assignments
import Aion2Hub.Planner.Toggle
import Aion2Hub.Lib.Arithmetic
import Aion2Hub.Lib.Record
import Aion2Hub.Loot.Report
import Aion2Hub.Loot.Week
import Aion2Hub.Characters.Active
import Aion2Hub.Lib.Greedy
import Aion2Hub.Planner.Recommend
import Aion2Hub.Lib.Text
import Aion2Hub.Lib.Search
import Aion2Hub.Notices.Diff
import Aion2Hub.Storage.Reading
import Aion2Hub.Characters.Windows
import Aion2Hub.Storage.Search
import Aion2Hub.Economy.Items
import Aion2Hub.Loot.Create
import Aion2Hub.Loot.Times
import Aion2Hub.Planner.Merge
import Aion2Hub.BuildScore.Files
import Aion2Hub.Lib.OrderedMap
import Aion2Hub.Notices.Client
import Aion2Hub.BuildScore.Score
import Aion2Hub.Lib.Totals
import Aion2Hub.Lib.Spacing
import Aion2Hub.Notices.Normalize
import Aion2Hub.Core.Resolve
import Aion2Hub.Lib.Numeral
import Aion2Hub.Overlay.Foreground
import Aion2Hub.Overlay.Manager
import Aion2Hub.Lib.Sightings
import Aion2Hub.Lib.Aligned
import Aion2Hub.Notices.Archive
import Aion2Hub.Notices.Sync
import Aion2Hub.Notices.Stored
import Aion2Hub.Notices.History
import Aion2Hub.Notices.Totals
import Aion2Hub.Notices.Worker
import Aion2Hub.Notices.Agreement
import Aion2Hub.Notices.Server
import Aion2Hub.Loot.Passes
import Aion2Hub.Loot.Accounts
import Aion2Hub.Economy.Alerts
import Aion2Hub.Lib.Intervals
import Aion2Hub.Lib.Fades
import Aion2Hub.Planner.Timer
import Aion2Hub.Planner.Sessions
import Aion2Hub.Lib.Utf16
import Aion2Hub.Planner.Stats
import Aion2Hub.Web.Characters
import Aion2Hub.Web.Charge
import Aion2Hub.Lib.Percent
import Aion2Hub.Lib.Rounding
import Aion2Hub.Renderer.Router
import Aion2Hub.Notices.Feed
import Aion2Hub.Notices.DiffPage
