import SensorCache.Disk.Routine

/-!
# Edits by hand

What somebody may do to the files of a disk who knows nothing of this library: replace a file, add
to it, remove it with all below it, date it otherwise, or put a directory in its place.
-/

namespace SensorCache

inductive Edit where
  /-- Replaces a file, after its directories where they are missing, and dates it if a time is
  given. -/
  | write (bytes : ByteArray) (modified : Option Instant)
  | append (bytes : ByteArray)
  | remove
  | makeDirectory
  | touch (modified : Instant)
  /-- Puts an empty directory of the same time in the place of a file. -/
  | toDirectory

namespace Disk

/-- Dates what is at a path. -/
def stamp (d : Disk) (p : Path) (t : Instant) : Except OsError Unit × Disk :=
  d.onPlace p fun l =>
    match d.node? l with
    | some n => (.ok (), d.put l (n.stamp t))
    | none => (.error .notFound, d)

/-- Removes what is at a path and all below it. -/
def removeTree (d : Disk) (p : Path) : Except OsError Unit × Disk :=
  d.onPlace p fun l =>
    match d.node? l with
    | some _ => (.ok (), { d with nodes := d.nodes.filter fun e => !l.isPrefixOf e.1 })
    | none => (.error .notFound, d)

/-- Replaces a file. -/
def write (p : Path) (bytes : ByteArray) : Attempt OsError Unit := do
  ensureDirectory p.parent
  clear p
  appendBytes p bytes

/-- Does an edit at a path. -/
def edit (d : Disk) (p : Path) : Edit → Except OsError Unit × Disk
  | .write bytes modified =>
    match (write p bytes).run d, modified with
    | (.ok _, d), some t => d.stamp p t
    | r, _ => r
  | .append bytes => (appendBytes p bytes).run d
  | .remove => d.removeTree p
  | .makeDirectory => (ensureDirectory p).run d
  | .touch t => d.stamp p t
  | .toDirectory =>
    d.onPlace p fun l =>
      match d.node? l with
      | some n => (.ok (), d.put l (.directory n.modified))
      | none => (.error .notFound, d)

end Disk

end SensorCache
