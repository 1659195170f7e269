import SensorCache.Cache.Basic
import SensorCache.Cache.Files
import SensorCache.Cache.Lock
import SensorCache.Cache.Sink
import SensorCache.CommandLine.Arguments
import SensorCache.CommandLine.Program
import SensorCache.CommandLine.Simulated
import SensorCache.Configuration.Basic
import SensorCache.Configuration.File
import SensorCache.Digest.Sha256
import SensorCache.Disk.Basic
import SensorCache.Disk.Edit
import SensorCache.Disk.Path
import SensorCache.Disk.Routine
import SensorCache.Entity.Basic
import SensorCache.Failure
import SensorCache.Json.Basic
import SensorCache.Json.Fields
import SensorCache.Json.Reader
import SensorCache.Keyed
import SensorCache.Main
import SensorCache.Number.Double
import SensorCache.Number.Numeral
import SensorCache.Number.Shortest
import SensorCache.Record.Basic
import SensorCache.Refresh.Course
import SensorCache.Refresh.Delayed
import SensorCache.Refresh.Executor
import SensorCache.Refresh.Job
import SensorCache.Refresh.Keeper
import SensorCache.Refresh.Monitor
import SensorCache.Refresh.Rehearsal
import SensorCache.Refresh.Scheduler
import SensorCache.Refresh.Settings
import SensorCache.Refresh.Simulation
import SensorCache.Refresh.Target
import SensorCache.Refresh.Timeline
import SensorCache.Refresh.Trigger
import SensorCache.Registry
import SensorCache.Source.Basic
import SensorCache.Source.Export
import SensorCache.Source.Script
import SensorCache.Text.Blank
import SensorCache.Text.Hex
import SensorCache.Text.Lines
import SensorCache.Time.Calendar
import SensorCache.Time.Clock
import SensorCache.Time.Daily
import SensorCache.Time.Moment
import SensorCache.Time.Span
import SensorCache.Time.UtcTime
import SensorCache.Time.Zone
import SensorCache.Yaml.Cell
import SensorCache.Yaml.Node
import SensorCache.Yaml.Scalar
import SensorCache.Yaml.Token
import SensorCache.Proofs.Cache.Beliefs
import SensorCache.Proofs.Cache.Contents
import SensorCache.Proofs.Cache.Durability
import SensorCache.Proofs.Cache.Locking
import SensorCache.Proofs.Cache.Merging
import SensorCache.Proofs.Cache.Opening
import SensorCache.Proofs.Cache.Ownership
import SensorCache.Proofs.Cache.Refinement
import SensorCache.Proofs.Cache.StoreTimes
import SensorCache.Proofs.Cache.Tallies
import SensorCache.Proofs.Record.Upserts
import SensorCache.Proofs.Refresh.CacheTargets
import SensorCache.Proofs.Refresh.DailySlots
import SensorCache.Proofs.Refresh.GivingWay
import SensorCache.Proofs.Refresh.Isolation
import SensorCache.Proofs.Refresh.JobOutcomes
import SensorCache.Proofs.Refresh.JobRace
import SensorCache.Proofs.Refresh.Overlap
import SensorCache.Proofs.Refresh.RepeatedChecks
import SensorCache.Proofs.Refresh.Shutdown
import SensorCache.Proofs.Refresh.Takeover
import SensorCache.Proofs.Refresh.Watchdog
import SensorCache.Proofs.Refresh.Prompt
import SensorCache.Proofs.Refresh.TwoWays
import SensorCache.Proofs.Refresh.Latecomers
import SensorCache.Proofs.Source.Streams
import SensorCache.Proofs.CommandLine.Openings
import SensorCache.Proofs.CommandLine.RefreshThenShow
import SensorCache.Proofs.Time.FirstFirings
import SensorCache.Proofs.Cache.FailedReleases
import SensorCache.Proofs.Text.Blanks
import SensorCache.Proofs.Time.ClockTexts
import SensorCache.Proofs.Configuration.Overriding
