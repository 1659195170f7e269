import SensorCache.Time.Daily

/-!
# Settings of refreshes

When refreshes run, how long their calls may take, and when a lock that was not given back is looked
at and removed.
-/

namespace SensorCache

open Time

/-- The timing of the monitor of locks. -/
structure MonitorSettings where
  /-- From the start of a refresh to the check. -/
  delay : Span := .ofSeconds 43200
  /-- Older locks are removed. -/
  maxLockAge : Span := .ofSeconds 43200
  /-- A job that waits this long without getting on is blocked. -/
  stallThreshold : Span := .ofSeconds 600
  deriving DecidableEq, Inhabited

/-- The settings of a scheduler. Its monitor normally looks after half a period. -/
structure ScheduleSettings where
  updateOnStartup : Bool := true
  updateTime : TimeOfDay := ⟨10800, 0⟩
  period : Span := .ofSeconds 86400
  maxJitter : Span := .ofSeconds 20
  callTimeout : Span := .ofSeconds 300
  streamingTimeout : Span := .ofSeconds 3600
  monitor : MonitorSettings := { delay := .ofSeconds 43200 }
  deriving DecidableEq, Inhabited

end SensorCache
