import SensorCache.Disk.Routine
import SensorCache.Failure

/-!
# The files of a cache

A cache has two files of record lines: the snapshot, the last complete set of entities, and the work
file, in which a population is going on. A finished population takes the place of the snapshot with
one rename, so whoever reads the snapshot sees all of a population or nothing of it.
-/

namespace SensorCache

/-- The paths of a cache's two files. -/
structure CacheFiles where
  snapshot : Path
  work : Path
  deriving DecidableEq, Inhabited

namespace CacheFiles

/-- The files of the cache of a kind in a directory. -/
def ofKind (dir : Path) (kind : String) : CacheFiles :=
  ⟨dir / ⟨kind ++ ".cache"⟩, dir / ⟨kind ++ ".cache.tmp"⟩⟩

variable {α : Type} [Entity α]

/-- Makes the directory and both files where they are missing. -/
def ensure (f : CacheFiles) : Attempt CacheError Unit := do
  (Disk.ensureDirectory f.snapshot.parent).because (.io f.snapshot.parent)
  (Disk.appendBytes f.snapshot .empty).because (.io f.snapshot)
  (Disk.appendBytes f.work .empty).because (.io f.work)

/-- The bytes of a record line with its ending. -/
def lineBytes (l : List Char) : ByteArray := (String.ofList (l ++ ['\n'])).toUTF8

/-- The lines of the entities before the first that is refused, and its refusal. -/
def linesOf : List α → List (List Char) × Option Record.Refusal
  | [] => ([], none)
  | e :: r =>
    match Record.encode e with
    | .error x => ([], some x)
    | .ok l =>
      let (ls, x) := linesOf r
      (l :: ls, x)

/-- Puts the entities, and nothing else, into the work file; those before a refused one stay
written. Gives their number. -/
def writeWork (f : CacheFiles) (es : List α) : Attempt CacheError Nat := do
  (Disk.clear f.work).because (.io f.work)
  let (ls, refused) := linesOf es
  let bytes := ls.foldl (fun b l => b ++ lineBytes l) ByteArray.empty
  (Disk.appendBytes f.work bytes).because (.io f.work)
  match refused with
  | some x => .fail (.codec x)
  | none => return es.length

/-- Adds an entity to the work file. -/
def appendWork (f : CacheFiles) (e : α) : Attempt CacheError Unit :=
  match Record.encode e with
  | .error x => .fail (.codec x)
  | .ok l => (Disk.appendBytes f.work (lineBytes l)).because (.io f.work)

/-- Empties the work file. -/
def clearWork (f : CacheFiles) : Attempt CacheError Unit := (Disk.clear f.work).because (.io f.work)

/-- Puts the work file in the place of the snapshot and leaves an empty one. -/
def promoteWork (f : CacheFiles) : Attempt CacheError Unit := do
  (Disk.renameTo f.work f.snapshot).because (.io f.snapshot)
  f.clearWork

/-- The records of a file; a file that is not there has none. -/
def readRecords (α : Type) [Entity α] (p : Path) : Attempt CacheError (Keyed α) := do
  match ← (Disk.readText p).caught with
  | .ok s => return Record.decode α s.toList
  | .error .notFound => return .empty
  | .error e => .fail (.io p e)

def readSnapshot (α : Type) [Entity α] (f : CacheFiles) : Attempt CacheError (Keyed α) :=
  readRecords α f.snapshot

def readWork (α : Type) [Entity α] (f : CacheFiles) : Attempt CacheError (Keyed α) :=
  readRecords α f.work

def hasContent (p : Path) : Routine Bool := do
  match ← Disk.look p with
  | some n => return n.hasContent
  | none => return false

def snapshotExists (f : CacheFiles) : Routine Bool := do return (← Disk.look f.snapshot).isSome

def snapshotHasContent (f : CacheFiles) : Routine Bool := hasContent f.snapshot

def workHasContent (f : CacheFiles) : Routine Bool := hasContent f.work

/-- The time of the snapshot's last change. -/
def snapshotModified (f : CacheFiles) : Routine (Option Instant) := do
  return (← Disk.look f.snapshot).map Node.modified

end CacheFiles

end SensorCache
