import SensorCache.CommandLine.Program
import Std.Async.Signal
import Std.Time.Zoned.Database

/-!
# The program on this machine

Operations of routines are done on the disk of this machine, and a scheduler goes on in its time. A
program that keeps caches refreshed is interrupted by a signal.
-/

namespace SensorCache.Machine

open Time

/-! ## The disk -/

/-- The number under which the operating system knows a failure. -/
def errorNumber? : IO.Error → Option UInt32
  | .alreadyExists _ n _ | .noFileOrDirectory _ n _ | .invalidArgument _ n _ => some n
  | .permissionDenied _ n _ | .resourceExhausted _ n _ | .inappropriateType _ n _ => some n
  | .noSuchThing _ n _ | .interrupted _ n _ | .otherError n _ | .resourceBusy n _ => some n
  | .resourceVanished n _ | .unsupportedOperation n _ | .hardwareFault n _ => some n
  | .unsatisfiedConstraints n _ | .illegalOperation n _ | .protocolError n _ => some n
  | .timeExpired n _ => some n
  | .unexpectedEof | .userError _ => none

def osError (e : IO.Error) : OsError :=
  match errorNumber? e with
  | some 2 => .notFound
  | some 17 => .alreadyExists
  | some 20 => .notDirectory
  | some 21 => .isDirectory
  | some 39 => .notEmpty
  | _ => .other (toString e)

/-- What an operation of the machine comes to. -/
def answering {α : Type} (x : IO α) : IO (Except OsError α) := do
  return (← x.toBaseIO).mapError osError

/-- The time of the wall clock. -/
def now : IO Instant := do
  let t ← Std.Time.Timestamp.now
  return ⟨t.toNanosecondsSinceUnixEpoch.val⟩

/-- What is at a path. -/
def find (p : Path) : IO Node := do
  let m ← (← IO.FS.realPath p.text).metadata
  let modified : Instant := ⟨m.modified.sec * 1000000000 + m.modified.nsec.toNat⟩
  if m.type matches .dir then return .directory modified
  else return .file (← IO.FS.readBinFile p.text) modified

/-- Removes a file, and nothing else. -/
def remove (p : Path) : IO (Except OsError Unit) := do
  match ← answering (find p) with
  | .ok (.directory _) => return .error .isDirectory
  | _ => answering (IO.FS.removeFile p.text)

/-- Does an operation. -/
def perform (o : Disk.Op) : IO o.Answer :=
  match o with
  | .now => now
  | .find p => answering (find p)
  | .read p => answering (IO.FS.readBinFile p.text)
  | .create p => answering do
    let _ ← IO.FS.Handle.mk p.text .writeNew
    return (← find p).modified
  | .truncate p => answering (discard (IO.FS.Handle.mk p.text .write))
  | .append p bytes => answering do
    let h ← IO.FS.Handle.mk p.text .append
    h.write bytes
    h.flush
  | .rename p q => answering (IO.FS.rename p.text q.text)
  | .remove p => remove p
  | .makeDirectory p => answering (IO.FS.createDir p.text)

/-- Does a routine. -/
def run {α : Type} : Routine α → IO α
  | .done a => pure a
  | .step o next => do run (next (← perform o))

/-! ## Schedulers -/

/-- The time since `start`, a time in nanoseconds. -/
def elapsed (start : Nat) : IO Span := do return ⟨(← IO.monoNanosNow) - start⟩

/-- Lets a scheduler go on until nothing is left to do and `isOver` tells that it is over. -/
partial def drive (start : Nat) (isOver : Scheduler Unit → BaseIO Bool) (s : Scheduler Unit) :
    IO (Scheduler Unit) := do
  let s := s.passTo (← elapsed start)
  match s.turn? with
  | some e => drive start isOver (← run (s.step e))
  | none =>
    if ← isOver s then return s
    else
      IO.sleep 50
      drive start isOver s

/-- Lets a scheduler go on while jobs are running, for five seconds at most. -/
def driveToStop (start : Nat) (s : Scheduler Unit) : IO (Scheduler Unit) := do
  let limit := (← elapsed start) + .ofSeconds 5
  drive start (fun s => pure (s.running.isEmpty || limit ≤ s.keeper.elapsed)) s

/-- Shuts a scheduler down. Jobs that do not stop are taken down, and no lock is left. -/
def shutdown (start : Nat) (s : Scheduler Unit) : IO Unit := do
  let s ← driveToStop start (← run (s.step .stop))
  let s ← s.running.foldlM (fun s t => run (s.step (.kill t.id))) s
  discard (run (s.step .releaseLeft))

/-- Comes to the end of the program. -/
def finish (start : Nat) : Stage → IO Report
  | .ended r => return r
  | .refreshing s => do
    let s ← drive start (fun s => pure (s.end? s.lastJob).isSome) s
    shutdown start s
    return ((s.end? s.lastJob).getD .killed).report
  | .running s => do
    let interrupt ← (← Std.Async.Signal.Waiter.mk .sigint false).wait
    let s ← drive start (fun _ => IO.hasFinished interrupt) s
    shutdown start s
    return ⟨0, [], []⟩

/-! ## The whole program -/

/-- The zone of this machine's clocks for the next years, or UTC if it is not known. -/
def zone : IO Zone := do
  match ← Std.Time.Database.defaultGetLocalZoneRules.toBaseIO with
  | .error _ => return .utc
  | .ok rules =>
    let offset (s : Int) : Int := 
      (rules.timezoneAt (.ofSecondsSinceUnixEpoch (.ofInt s))).offset.second.val
    return .ofOffsets offset 3650 ((← now).nanos / 1000000000)

/-- The variables of the environment that are looked up. -/
def environment : IO (List (String × String)) := do
  let names := ["HOME", "XDG_CONFIG_HOME", "XDG_CACHE_HOME"] ++
    Configuration.Override.all.map Configuration.Override.name
  return (← names.mapM fun n => do return (← IO.getEnv n).map fun v => (n, v)).filterMap id

def usage : String :=
  "Usage: " ++ Program.name ++ " [--config <CONFIG>] [--log-file <LOG_FILE>] <COMMAND>\n\n" ++
    "Commands:\n" ++
    "  run      Keep the caches refreshed until interrupted\n" ++
    "  refresh  Run one refresh and exit\n" ++
    "  status   Show lock state and cache freshness\n" ++
    "  show     Print the entries of one cache as JSON lines: unit-mappings or offerings"

def printReport (r : Report) : IO Unit := do
  for line in r.output do IO.println line
  if !r.errors.isEmpty then IO.eprintln "Error:"
  for line in r.errors do IO.eprintln ("   " ++ line)

end SensorCache.Machine

open SensorCache in
def main (args : List String) : IO UInt32 := do
  match Request.read? args with
  | none =>
    IO.eprintln Machine.usage
    return 2
  | some .help =>
    IO.println Machine.usage
    return 0
  | _ =>
    let known ← Machine.environment
    let jitter ← IO.rand 0 ({} : ScheduleSettings).maxJitter.nanos
    let start ← IO.monoNanosNow
    let stage ← Machine.run
      (Program.begin (fun n => known.lookup n) Workspace.timeText ⟨jitter⟩ (← Machine.zone) args)
    let report ← Machine.finish start stage
    Machine.printReport report
    return report.code.toUInt32
