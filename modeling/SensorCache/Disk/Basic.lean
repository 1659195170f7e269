import SensorCache.Disk.Path
import SensorCache.Time.Moment

/-!
# A disk of files and directories

The disk is what every part of the library reads and writes: files with their bytes and the time of
their last change, directories, and the clock that stamps changes. It does one operation at a time;
`perform` says what each does and answers, and an operation that fails changes nothing.
-/

namespace SensorCache

/-- A point of time, in nanoseconds since 1970-01-01 UTC. -/
structure Instant where
  nanos : Int
  deriving DecidableEq, Inhabited

namespace Instant

def ofSeconds (s : Int) : Instant := ⟨s * 1000000000⟩

instance : LT Instant := ⟨fun a b => a.nanos < b.nanos⟩

instance : LE Instant := ⟨fun a b => a.nanos ≤ b.nanos⟩

instance (a b : Instant) : Decidable (a < b) := inferInstanceAs (Decidable (a.nanos < b.nanos))

instance (a b : Instant) : Decidable (a ≤ b) := inferInstanceAs (Decidable (a.nanos ≤ b.nanos))

/-- The time from `earlier` to `t`, and none at all if that is later. -/
def since (t earlier : Instant) : Time.Span := ⟨(t.nanos - earlier.nanos).toNat⟩

def add (t : Instant) (d : Time.Span) : Instant := ⟨t.nanos + d.nanos⟩

def toMoment (t : Instant) : Time.Moment :=
  .ofUnix (t.nanos / 1000000000) (t.nanos % 1000000000).toNat

end Instant

/-- Why an operation on the disk failed, or why what it read is no text. -/
inductive OsError where
  | notFound
  | alreadyExists
  | notDirectory
  | isDirectory
  | notEmpty
  | notText
  /-- Something that this disk does not know, such as a lack of rights or of space. -/
  | other (message : String)
  deriving DecidableEq, Inhabited

def OsError.message : OsError → String
  | .notFound => "No such file or directory (os error 2)"
  | .alreadyExists => "File exists (os error 17)"
  | .notDirectory => "Not a directory (os error 20)"
  | .isDirectory => "Is a directory (os error 21)"
  | .notEmpty => "Directory not empty (os error 39)"
  | .notText => "stream did not contain valid UTF-8"
  | .other message => message

/-- What may stand at a place of the disk. -/
inductive Node where
  | file (content : ByteArray) (modified : Instant)
  | directory (modified : Instant)
  deriving Inhabited

namespace Node

def modified : Node → Instant
  | .file _ t => t
  | .directory t => t

def isDirectory : Node → Bool
  | .file .. => false
  | .directory _ => true

/-- A directory always counts as having content. -/
def hasContent : Node → Bool
  | .file c _ => c.size != 0
  | .directory _ => true

def stamp (t : Instant) : Node → Node
  | .file c _ => .file c t
  | .directory _ => .directory t

end Node

/-- A place of the disk, as the steps from its root. -/
abbrev Place := List String

/-- The nodes of the disk by place, its current directory and its clock. The root is a directory
without an entry of its own. -/
structure Disk where
  nodes : List (Place × Node)
  here : Place
  clock : Instant
  deriving Inhabited

namespace Disk

def empty (clock : Instant) : Disk := ⟨[], [], clock⟩

/-- What is at a place. -/
def node? (d : Disk) (l : Place) : Option Node :=
  if l.isEmpty then some (.directory ⟨0⟩) else d.nodes.lookup l

def put (d : Disk) (l : Place) (n : Node) : Disk :=
  { d with nodes := (l, n) :: d.nodes.filter fun e => e.1 != l }

def erase (d : Disk) (l : Place) : Disk := { d with nodes := d.nodes.filter fun e => e.1 != l }

/-- Goes along the parts of a path from a place. Each step is taken in a directory that is there;
what the last one leads to need not be. -/
def follow (d : Disk) : Place → List String → Except OsError Place
  | l, [] => .ok l
  | l, s :: r =>
    if s == "" then follow d l r
    else
      match d.node? l with
      | none => .error .notFound
      | some (.file ..) => .error .notDirectory
      | some (.directory _) =>
        if s == "." then follow d l r
        else if s == ".." then follow d l.dropLast r
        else follow d (l ++ [s]) r

/-- The place that a path leads to. -/
def locate (d : Disk) (p : Path) : Except OsError Place :=
  if p.text.isEmpty then .error .notFound
  else d.follow (if p.isAbsolute then [] else d.here) p.parts

/-- Whether a place has others below it. -/
def hasChildren (d : Disk) (l : Place) : Bool :=
  d.nodes.any fun e => l.length < e.1.length && l.isPrefixOf e.1

/-- Moves a place and all below it. -/
def moveTree (d : Disk) (a b : Place) : Disk :=
  { d with
    nodes := (d.nodes.filter fun e => e.1 != b).map fun e =>
      if a.isPrefixOf e.1 then (b ++ e.1.drop a.length, e.2) else e }

/-- Moves the node `n` at a place, a directory with all below it. -/
def move (d : Disk) (a b : Place) (n : Node) : Disk :=
  if n.isDirectory then d.moveTree a b else (d.erase a).put b n

/-- Lets the clock go on. -/
def tick (d : Disk) (t : Time.Span) : Disk := { d with clock := d.clock.add t }

/-! ## Operations -/

/-- An operation on the disk. `append` creates a file that is not there, `create` never opens one
that is, and `truncate` does both. -/
inductive Op where
  | now
  | find (p : Path)
  | read (p : Path)
  | create (p : Path)
  | truncate (p : Path)
  | append (p : Path) (bytes : ByteArray)
  | rename (p q : Path)
  | remove (p : Path)
  | makeDirectory (p : Path)

/-- What an operation answers. -/
abbrev Op.Answer : Op → Type
  | .now => Instant
  | .find _ => Except OsError Node
  | .read _ => Except OsError ByteArray
  | .create _ => Except OsError Instant
  | .truncate _ => Except OsError Unit
  | .append .. => Except OsError Unit
  | .rename .. => Except OsError Unit
  | .remove _ => Except OsError Unit
  | .makeDirectory _ => Except OsError Unit

def find (d : Disk) (l : Place) : Except OsError Node :=
  match d.node? l with
  | none => .error .notFound
  | some n => .ok n

def readFile (d : Disk) (l : Place) : Except OsError ByteArray :=
  match d.node? l with
  | none => .error .notFound
  | some (.directory _) => .error .isDirectory
  | some (.file c _) => .ok c

def createFile (d : Disk) (l : Place) : Except OsError Instant × Disk :=
  match d.node? l with
  | some _ => (.error .alreadyExists, d)
  | none => (.ok d.clock, d.put l (.file .empty d.clock))

def truncateFile (d : Disk) (l : Place) : Except OsError Unit × Disk :=
  match d.node? l with
  | some (.directory _) => (.error .isDirectory, d)
  | _ => (.ok (), d.put l (.file .empty d.clock))

/-- A file that gets no bytes keeps its time. -/
def appendFile (d : Disk) (l : Place) (bytes : ByteArray) : Except OsError Unit × Disk :=
  match d.node? l with
  | some (.directory _) => (.error .isDirectory, d)
  | some (.file c _) =>
    (.ok (), if bytes.size == 0 then d else d.put l (.file (c ++ bytes) d.clock))
  | none => (.ok (), d.put l (.file bytes d.clock))

/-- A file may take the place of a file and a directory that of an empty one; the moved node keeps
its time. -/
def renameNode (d : Disk) (a b : Place) : Except OsError Unit × Disk :=
  match d.node? a, d.node? b with
  | none, _ => (.error .notFound, d)
  | some n, some m =>
    if a == b then (.ok (), d)
    else if n.isDirectory && !m.isDirectory then (.error .notDirectory, d)
    else if !n.isDirectory && m.isDirectory then (.error .isDirectory, d)
    else if m.isDirectory && d.hasChildren b then (.error .notEmpty, d)
    else (.ok (), d.move a b n)
  | some n, none => (.ok (), d.move a b n)

def removeFile (d : Disk) (l : Place) : Except OsError Unit × Disk :=
  match d.node? l with
  | none => (.error .notFound, d)
  | some (.directory _) => (.error .isDirectory, d)
  | some (.file ..) => (.ok (), d.erase l)

def makeDirectoryAt (d : Disk) (l : Place) : Except OsError Unit × Disk :=
  match d.node? l with
  | some _ => (.error .alreadyExists, d)
  | none => (.ok (), d.put l (.directory d.clock))

/-- Does something at the place that a path leads to. -/
def onPlace {α : Type} (d : Disk) (p : Path) (f : Place → Except OsError α × Disk) :
    Except OsError α × Disk :=
  match d.locate p with
  | .error e => (.error e, d)
  | .ok l => f l

/-- What an operation answers, and the disk after it. -/
def perform (d : Disk) : (o : Op) → o.Answer × Disk
  | .now => (d.clock, d)
  | .find p => d.onPlace p fun l => (d.find l, d)
  | .read p => d.onPlace p fun l => (d.readFile l, d)
  | .create p => d.onPlace p d.createFile
  | .truncate p => d.onPlace p d.truncateFile
  | .append p bytes => d.onPlace p fun l => d.appendFile l bytes
  | .rename p q => d.onPlace p fun a => d.onPlace q fun b => d.renameNode a b
  | .remove p => d.onPlace p d.removeFile
  | .makeDirectory p => d.onPlace p d.makeDirectoryAt

end Disk

end SensorCache
