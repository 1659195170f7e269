import SensorCache.CommandLine.Arguments
import SensorCache.Configuration.File
import SensorCache.Refresh.Scheduler
import SensorCache.Registry
import SensorCache.Source.Export

/-!
# The program

What the program does with its arguments: it opens the caches that the configuration names and does
the command on them. `begin` goes as far as a scheduler has to take over, and the report of a
refresh is made from the end of its job; a program that keeps caches refreshed has nothing to
report.
-/

namespace SensorCache

open Time

/-- Why a command fails. -/
inductive CommandFailure where
  /-- The path of the log file has no file name. -/
  | logName (p : Path)
  | logFile (p : Path) (e : OsError)
  | configuration (e : ConfigurationError)
  | cache (e : CacheError)
  | aborted (target error : String)
  | cancelled
  /-- The task of a refresh was lost. -/
  | lost
  deriving DecidableEq, Inhabited

namespace CommandFailure

/-- The message of a failure, and those of its causes. -/
def messages : CommandFailure → List String
  | .logName p => ["Invalid log file path: " ++ p.text]
  | .logFile p e => ["Cannot open log file " ++ p.text, e.message]
  | .configuration e => [e.message]
  | .cache (.io p e) => [CacheError.message (.io p e), e.message]
  | .cache e => [e.message]
  | .aborted target error => ["Refresh aborted at cache '" ++ target ++ "': " ++ error]
  | .cancelled => ["Refresh was cancelled"]
  | .lost => ["Refresh was lost"]

/-- The exit code; a log file that cannot be opened is a crash. -/
def code : CommandFailure → Nat
  | .logFile .. => 101
  | _ => 1

end CommandFailure

/-! ## Reports -/

/-- What the program leaves: an exit code, and lines of output and of errors. -/
structure Report where
  code : Nat
  output : List String
  errors : List String
  deriving DecidableEq, Inhabited

namespace Report

/-- A message under its number, line by line. -/
def numbered (number : Nat) (message : String) : List String :=
  (toString number ++ ": " ++ message).splitOn "\n"

def ofFailure (f : CommandFailure) : Report :=
  ⟨f.code, [], f.messages.zipIdx.flatMap fun (m, i) => numbered i m⟩

end Report

/-! ## What commands work with -/

/-- The caches of a configuration, with their source. -/
structure Workspace where
  configuration : Configuration
  caches : CacheRegistry
  source : ExportDirectory
  log : Option Path

namespace Workspace

/-- A time as it is shown. -/
def timeText (t : Instant) : String :=
  let m := t.toMoment
  String.ofList (m.dateText ++ 'T' :: m.clockText) ++ "+00:00"

/-- Writes a line into the log, if there is one. -/
def note (w : Workspace) (line : String) : Routine Unit := do
  match w.log with
  | none => return
  | some p =>
    let text := timeText (← Disk.now) ++ " " ++ line ++ "\n"
    let _ ← (Disk.appendBytes p text.toUTF8).outcome
    return

/-- Opens the log file of the day; its directory is made if it is missing. -/
def openLog (p : Path) : Attempt CommandFailure Path := do
  match p.fileName? with
  | none => .fail (.logName p)
  | some name =>
    let day := String.ofList (← Disk.now).toMoment.dateText
    let file := p.parent / ⟨name ++ "." ++ day⟩
    match ← (Disk.appendBytes file .empty).caught with
    | .ok _ => return file
    | .error _ =>
      (Disk.ensureDirectory file.parent).because (.logFile p)
      (Disk.appendBytes file .empty).because (.logFile p)
      return file

/-- A result that does not need the disk. -/
def having {α : Type} : Except ConfigurationError α → Attempt CommandFailure α
  | .ok a => pure a
  | .error e => .fail (.configuration e)

/-- Opens what an invocation works with. -/
def openFor (lookup : String → Option String) (i : Invocation) :
    Attempt CommandFailure Workspace := do
  let log ← match i.logFile with
    | none => pure none
    | some p => do pure (some (← openLog p))
  let c ← (Configuration.load lookup i.config).because .configuration
  let base ← having (c.cacheDir lookup)
  let caches ← (CacheRegistry.openIn base c.identity (.ofSeconds c.freshness)).because .cache
  let w : Workspace := ⟨c, caches, ⟨c.exportDir⟩, log⟩
  w.note ("Opened metadata caches in " ++ caches.dir.text)
  return w

/-- A scheduler of the caches. -/
def start (w : Workspace) (settings : ScheduleSettings) (jitter : Span) (zone : Zone) :
    Routine (Scheduler Unit) :=
  Scheduler.start (.new w.caches.lock settings.monitor true) () settings jitter zone
    (w.caches.targets w.source.unitMappings w.source.offerings)

/-! ## Commands that only look -/

/-- A text with blanks after it up to a width. -/
def padded (width : Nat) (s : String) : String := s ++ "".pushn ' ' (width - s.length)

/-- The line on a cache; `time` shows when it was last written. -/
def statusLine (time : Instant → String) (s : CacheStatus) : String :=
  let state :=
    if s.isPartial then "partial" else if s.requiresUpdate then "needs update" else "fresh"
  padded 16 s.name ++ " " ++ padded 13 state ++ " last updated " ++
    (s.lastUpdated.map time).getD "never"

/-- The line on the lock. -/
def lockLine (w : Workspace) : Routine String := do
  match ← w.caches.lock.ageAt (← Disk.now) with
  | some age => return "Update lock:     held for " ++ toString age.seconds ++ "s"
  | none =>
    if ← w.caches.lock.isLocked then return "Update lock:     held"
    else return "Update lock:     free"

/-- How the lock and the caches stand. -/
def statusLines (w : Workspace) (time : Instant → String) : Routine (List String) := do
  let lock ← w.lockLine
  let caches ← w.caches.status
  return ("Cache directory: " ++ w.caches.dir.text) :: lock :: caches.map (statusLine time)

/-- The entities of a cache by their keys. -/
def entityLines {α : Type} [Entity α] (c : EntityCache α) : Attempt CacheError (List String) := do
  let data ← Attempt.ofOutcome (do return (← c.get .new).1)
  return data.values.map fun e => String.ofList (Entity.body e)

def printed (w : Workspace) : MetadataKind → Attempt CacheError (List String)
  | .unitMappings => entityLines w.caches.unitMappings
  | .offerings => entityLines w.caches.offerings

end Workspace

/-! ## The course of the program -/

/-- What the end of a refresh's job is for its command. -/
def JobEnd.report : JobEnd → Report
  | .outcome (.completed n) => ⟨0, ["Refreshed " ++ toString n ++ " caches"], []⟩
  | .outcome .skipped => ⟨0, ["Another refresh is in progress"], []⟩
  | .outcome .cancelled => .ofFailure .cancelled
  | .outcome (.aborted cache error) => .ofFailure (.aborted cache error)
  | .panicked | .killed => .ofFailure .lost

/-- How far the program comes by itself. -/
inductive Stage where
  | ended (r : Report)
  /-- A scheduler has begun one job, whose end is reported. -/
  | refreshing (s : Scheduler Unit)
  /-- A scheduler goes on until the program is interrupted. -/
  | running (s : Scheduler Unit)

namespace Program

def name : String := "sosmeta"

def version : String := "0.1.0"

/-- Does a command as far as it comes by itself. -/
def perform (w : Workspace) (time : Instant → String) (jitter : Span) (zone : Zone) :
    Command → Attempt CommandFailure Stage
  | .status => do return .ended ⟨0, ← w.statusLines time, []⟩
  | .print kind => do return .ended ⟨0, ← (w.printed kind).because .cache, []⟩
  | .refresh => do
    let settings ← Workspace.having w.configuration.scheduleSettings
    let s ← w.start { settings with updateOnStartup := false } jitter zone
    return .refreshing (← s.runNow)
  | .run => do
    let settings ← Workspace.having w.configuration.scheduleSettings
    let s ← w.start settings jitter zone
    w.note "Cache scheduler running"
    return .running s

/-- Does what an invocation asks for as far as it comes by itself. -/
def invoke (lookup : String → Option String) (time : Instant → String) (jitter : Span) (zone : Zone)
    (i : Invocation) : Routine Stage := do
  let begun : Attempt CommandFailure Stage := do
    perform (← Workspace.openFor lookup i) time jitter zone i.command
  match ← begun.outcome with
  | .ok s => return s
  | .error f => return .ended (.ofFailure f)

/-- Begins with the arguments of the program. -/
def begin (lookup : String → Option String) (time : Instant → String) (jitter : Span) (zone : Zone)
    (args : List String) : Routine Stage :=
  match Request.read? args with
  | none => pure (.ended ⟨2, [], []⟩)
  | some .version => pure (.ended ⟨0, [name ++ " " ++ version], []⟩)
  | some .help => pure (.ended ⟨0, [], []⟩)
  | some (.invoke i) => invoke lookup time jitter zone i

end Program

end SensorCache
