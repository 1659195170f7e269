import SensorCache.Disk.Basic
import SensorCache.Record.Basic

/-!
# Failures

Why a cache could not be read or written, why a source gave nothing, why a call of it came to
nothing, and why the update of a cache failed. Readers only ever see a `CacheError`; the failures of
sources are those of refreshes. Each cause has one message.
-/

namespace SensorCache

open Time

/-- A failure of a cache. -/
inductive CacheError where
  /-- Neither the snapshot nor the work file holds anything. -/
  | notYetAvailable (cache : String)
  | io (path : Path) (error : OsError)
  | codec (refusal : Record.Refusal)
  /-- A holder of the cache's lock crashed. -/
  | poisoned (what : String)
  deriving DecidableEq, Inhabited

def CacheError.message : CacheError → String
  | .notYetAvailable cache =>
    "cache '" ++ cache ++ "' is not yet available, an update has been requested"
  | .io path error => "cache I/O failed for " ++ path.text ++ ": " ++ error.message
  | .codec r => "failed to encode record '" ++ r.id ++ "': " ++ r.reason
  | .poisoned what => "cache lock poisoned: " ++ what

/-- A failure that a source reports. -/
inductive SourceError where
  | backend (message : String)
  /-- The source was asked to stop. -/
  | cancelled
  deriving DecidableEq, Inhabited

def SourceError.message : SourceError → String
  | .backend m => "metadata backend failed: " ++ m
  | .cancelled => "population cancelled"

/-- A call that ended without the result of its operation. -/
inductive CallError where
  | timedOut (limit : Span)
  | workerPanicked
  deriving DecidableEq, Inhabited

def CallError.message : CallError → String
  | .timedOut limit => "backend call timed out after " ++ limit.text
  | .workerPanicked => "backend call panicked on the worker thread"

/-- A failure of the update of one cache. -/
inductive RefreshError where
  | source (message : String)
  | cancelled
  | cache (error : CacheError)
  deriving DecidableEq, Inhabited

namespace RefreshError

def message : RefreshError → String
  | .source m => "source failure: " ++ m
  | .cancelled => "refresh cancelled"
  | .cache e => e.message

def ofSource : SourceError → RefreshError
  | .backend m => .source m
  | .cancelled => .cancelled

def ofCall (e : CallError) : RefreshError := .source e.message

end RefreshError

end SensorCache
