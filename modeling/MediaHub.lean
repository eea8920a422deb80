import MediaHub.Adguard.Sync
import MediaHub.Bazarr.Blame
import MediaHub.Bazarr.Blocklist
import MediaHub.Bazarr.Complete
import MediaHub.Bazarr.Originals
import MediaHub.Bazarr.Partition
import MediaHub.Bazarr.Progress
import MediaHub.Bazarr.Requests
import MediaHub.Bazarr.TargetPath
import MediaHub.Bazarr.TranslateMissing
import MediaHub.Fleet.Alerts
import MediaHub.Fleet.Healthcheck
import MediaHub.Fleet.StaysReported
import MediaHub.Integration.Alerts
import MediaHub.Integration.Check
import MediaHub.Lib.Argmax
import MediaHub.Lib.EditScript
import MediaHub.Lib.FileOps
import MediaHub.Lib.FirstLeast
import MediaHub.Lib.Groups
import MediaHub.Lib.Lanes
import MediaHub.Lib.Lines
import MediaHub.Lib.Meter
import MediaHub.Lib.Paging
import MediaHub.Lib.Parties
import MediaHub.Lib.Past
import MediaHub.Lib.Recv
import MediaHub.Lib.Regex
import MediaHub.Lib.Runs
import MediaHub.Lib.Sorting
import MediaHub.Lib.Span
import MediaHub.Lib.StepRuns
import MediaHub.Lib.Streak
import MediaHub.Lib.Swaps
import MediaHub.Lib.Walk
import MediaHub.LidarrYtdl.Audit
import MediaHub.LidarrYtdl.AuditCursor
import MediaHub.LidarrYtdl.AuditDeletes
import MediaHub.LidarrYtdl.Backoff
import MediaHub.LidarrYtdl.BotBlock
import MediaHub.LidarrYtdl.Closest
import MediaHub.LidarrYtdl.Course
import MediaHub.LidarrYtdl.DownloadSlots
import MediaHub.LidarrYtdl.ImportAlbum
import MediaHub.LidarrYtdl.LastResort
import MediaHub.LidarrYtdl.Report
import MediaHub.LidarrYtdl.Scheduler
import MediaHub.LidarrYtdl.TempFiles
import MediaHub.LidarrYtdl.TrackBody
import MediaHub.LogDigest.Build
import MediaHub.LogDigest.Credentials
import MediaHub.LogDigest.Discord
import MediaHub.LogDigest.Paging
import MediaHub.LogDigest.Patterns
import MediaHub.LogDigest.Published
import MediaHub.LogDigest.Redact
import MediaHub.LogDigest.Stamps
import MediaHub.LogDigest.Visible
import MediaHub.Lrclib.Lookup
import MediaHub.Lrclib.Run
import MediaHub.Lrclib.Written
import MediaHub.Maintenance.JavaStatus
import MediaHub.Maintenance.SessionActivity
import MediaHub.Maintenance.Window
import MediaHub.Manga.Convert
import MediaHub.Manga.Names
import MediaHub.Mounts.Ensure
import MediaHub.Mounts.Stranded
import MediaHub.Netmon.Buffering
import MediaHub.Netmon.Modem
import MediaHub.Netmon.Monitor
import MediaHub.Permissions.ApplyFix
import MediaHub.Permissions.Digest
import MediaHub.Permissions.Monitor
import MediaHub.Permissions.Queue
import MediaHub.Places
import MediaHub.QaVoting.ByPasses
import MediaHub.QaVoting.Defs
import MediaHub.QaVoting.Identical
import MediaHub.QaVoting.Ladder
import MediaHub.QaVoting.Overlaps
import MediaHub.QaVoting.PassOrder
import MediaHub.QaVoting.Quorum
import MediaHub.QaVoting.Segments
import MediaHub.QaVoting.Slots
import MediaHub.QaVoting.Track
import MediaHub.QaVoting.Unanimous
import MediaHub.QaVoting.Vote
import MediaHub.QaVoting.VoteOrder
import MediaHub.Re
import MediaHub.Subgen.AsrEndpoint
import MediaHub.Subgen.AsrWorker
import MediaHub.Subgen.LanguageCode
import MediaHub.Subgen.ModelCleanup
import MediaHub.Subgen.PlexSeries
import MediaHub.Subgen.ScorePair
import MediaHub.Subgen.SkipFile
import MediaHub.Subgen.SrtCues
import MediaHub.Subgen.SrtText
import MediaHub.Subgen.TaskQueue
import MediaHub.Subgen.WerCer
import MediaHub.Text
import MediaHub.Threadfin.Agreement
import MediaHub.Threadfin.Channels
import MediaHub.Threadfin.GenerateM3u
import MediaHub.Values
