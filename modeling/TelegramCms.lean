import TelegramCms.Lib.Transition
import TelegramCms.Lib.Table
import TelegramCms.Lib.Reservation
import TelegramCms.Lib.Pool
import TelegramCms.Lib.Ranking
import TelegramCms.Lib.Sorting
import TelegramCms.Lib.Turns
import TelegramCms.Lib.Paging
import TelegramCms.Lib.PyStr
import TelegramCms.Lib.Html
import TelegramCms.Lib.Shell
import TelegramCms.Lib.Json
import TelegramCms.Lib.GoTime
import TelegramCms.Lib.SqlUpdate
import TelegramCms.Lib.Base64
import TelegramCms.Lib.Scanf
import TelegramCms.Lib.Words
import TelegramCms.Lib.EnvFile
import TelegramCms.Model.Schema
import TelegramCms.Model.Content
import TelegramCms.Model.Process
import TelegramCms.Model.Publisher
import TelegramCms.Model.Normalize
import TelegramCms.Model.Editors
import TelegramCms.Model.Ingest
import TelegramCms.Model.World
import TelegramCms.Model.SendPost
import TelegramCms.Model.Userbot
import TelegramCms.Model.Cards
import TelegramCms.Model.Pruning
import TelegramCms.Model.EditorGroup
import TelegramCms.Model.Http
import TelegramCms.Model.Admins
import TelegramCms.Model.BackOffice
import TelegramCms.Model.Bodies
import TelegramCms.Model.Channels
import TelegramCms.Model.Catalog
import TelegramCms.Model.Endpoints
import TelegramCms.Model.Fleet
import TelegramCms.Model.Listing
import TelegramCms.Model.Watchdog
import TelegramCms.Model.Enqueue
import TelegramCms.Model.SetBuilder
import TelegramCms.Model.Passwords
import TelegramCms.Model.Credentials
import TelegramCms.Model.Slugs
import TelegramCms.Model.Installer
import TelegramCms.Proof.Ingest
import TelegramCms.Proof.PublishAlone
import TelegramCms.Proof.Steps
import TelegramCms.Proof.PublishMoves
import TelegramCms.Proof.Moves
import TelegramCms.Proof.Paths
import TelegramCms.Proof.Rows
import TelegramCms.Proof.Reserve
import TelegramCms.Proof.Owners
import TelegramCms.Proof.Snapshots
import TelegramCms.Proof.Reviewed
import TelegramCms.Proof.ContentOnce
import TelegramCms.Proof.Serialized
import TelegramCms.Proof.Duplicates
import TelegramCms.Proof.Terminal
import TelegramCms.Proof.Renormalize
import TelegramCms.Proof.Rejection
import TelegramCms.Proof.Schedule
import TelegramCms.Proof.AtMostOnce
import TelegramCms.Proof.Orphans
import TelegramCms.Proof.Media
import TelegramCms.Proof.Backfill
import TelegramCms.Proof.CatchUp
import TelegramCms.Proof.Fingerprint
import TelegramCms.Proof.Parts
import TelegramCms.Proof.Approved
import TelegramCms.Proof.Stranded
import TelegramCms.Proof.Overdue
import TelegramCms.Proof.Origins
import TelegramCms.Proof.Tags
import TelegramCms.Proof.Escaping
import TelegramCms.Proof.Pruning
import TelegramCms.Proof.Audit
import TelegramCms.Proof.DraftCards
import TelegramCms.Proof.Surfaces
import TelegramCms.Proof.Admins
import TelegramCms.Proof.BackOffice
import TelegramCms.Proof.Catalog
import TelegramCms.Proof.Channels
import TelegramCms.Proof.Endpoints
import TelegramCms.Proof.Fleet
import TelegramCms.Proof.Updates
import TelegramCms.Proof.Listing
import TelegramCms.Proof.Watchdog
import TelegramCms.Proof.RateLimit
import TelegramCms.Proof.Reloader
import TelegramCms.Proof.Transform
import TelegramCms.Proof.HealthGate
import TelegramCms.Proof.Lookback
import TelegramCms.Proof.Sent
import TelegramCms.Proof.Stripping
import TelegramCms.Proof.Quotes
import TelegramCms.Proof.Stamps
import TelegramCms.Proof.MediaOrder
import TelegramCms.Proof.MediaKeys
import TelegramCms.Proof.Templates
import TelegramCms.Proof.Enqueue
import TelegramCms.Proof.SetBuilder
import TelegramCms.Proof.Passwords
import TelegramCms.Proof.Credentials
import TelegramCms.Proof.Slugs
import TelegramCms.Proof.Installer
import TelegramCms.Proof.Jobs
import TelegramCms.Proof.Auth
import TelegramCms.Proof.Sessions
import TelegramCms.Proof.Guards
import TelegramCms.Proof.WebClient
import TelegramCms.Proof.Cleared
import TelegramCms.Proof.Newsroom
import TelegramCms.Proof.Workload
import TelegramCms.Proof.Throttle
import TelegramCms.Proof.ImageTag
