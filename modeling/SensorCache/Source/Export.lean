import SensorCache.Source.Basic

/-!
# Exports

An export is a directory with the unit mappings as one JSON array and the offerings as JSON lines.
Offerings are better streamed: their file is read once to count the lines that are not blank and
again to deliver what they hold.
-/

namespace SensorCache

open Text

/-- The directory of an export. -/
structure ExportDirectory where
  path : Path
  deriving DecidableEq, Inhabited

namespace ExportDirectory

def unitMappingsFile : String := "unit_mappings.json"

def offeringsFile : String := "offerings.jsonl"

/-- A failure to do something with a file. -/
def failure (doing : String) (p : Path) (e : OsError) : SourceError :=
  .backend ("failed to " ++ doing ++ " " ++ p.text ++ ": " ++ e.message)

/-- The unit mappings of a JSON array. -/
def unitMappings? (s : List Char) : Option (List UnitMapping) :=
  match Json.parse? s with
  | some (.array es) => es.mapM Entity.ofJson?
  | _ => none

/-- Reads all unit mappings. What the parser says is wrong with the text is left out of the message,
which names the file. -/
def fetchUnitMappings (x : ExportDirectory) : SourceCall Empty (List UnitMapping) := do
  let p := x.path / ⟨unitMappingsFile⟩
  let s ← .ofAttempt (failure "read" p) (Disk.readText p)
  match unitMappings? s.toList with
  | some es => return es
  | none => .fail (.backend ("failed to parse " ++ p.text))

/-- The bytes of the file of offerings; that it can be opened does not yet mean it can be read. -/
def readOfferings {α : Type} (x : ExportDirectory) : SourceCall α (List UInt8) := do
  let p := x.path / ⟨offeringsFile⟩
  let _ ← .ofAttempt (failure "open" p) (Disk.stat p)
  let bytes ← .ofAttempt (failure "read" p) (Disk.readBytes p)
  return bytes.data.toList

/-- The text of a line. -/
def lineText (p : Path) (l : List UInt8) : Except SourceError (List Char) :=
  match String.fromUTF8? ⟨l.toArray⟩ with
  | some s => .ok s.toList
  | none => .error (failure "read" p .notText)

/-- How many lines are not blank; all have to be text. -/
def countLines (p : Path) : List (List UInt8) → Except SourceError Nat
  | [] => .ok 0
  | l :: r =>
    match lineText p l with
    | .error e => .error e
    | .ok s =>
      match countLines p r with
      | .error e => .error e
      | .ok n => .ok (if allBlank s then n else n + 1)

/-- The offering of a line, none if it is blank. What the parser says is wrong with a line is left out
of the message, which names the line. -/
def offeringOf (p : Path) (number : Nat) (l : List UInt8) : Except SourceError (Option Offering) :=
  match lineText p l with
  | .error e => .error e
  | .ok s =>
    if allBlank s then .ok none
    else
      match (Json.parse? s).bind Entity.ofJson? with
      | some o => .ok (some o)
      | none => .error (.backend (p.text ++ ":" ++ toString number ++ ": invalid offering"))

/-- Visits the offerings of lines, the first of which has the number `n`, up to the first line that
has none but is not blank. -/
def eachOffering {α : Type} (p : Path) (visit : Offering → SourceCall α Unit) :
    Nat → List (List UInt8) → SourceCall α Unit
  | _, [] => pure ()
  | n, l :: r =>
    match offeringOf p n l with
    | .error e => .fail e
    | .ok none => eachOffering p visit (n + 1) r
    | .ok (some o) => do
      visit o
      eachOffering p visit (n + 1) r

/-- The offerings of lines, up to the first that has none but is not blank. -/
def offeringsOf (p : Path) : Nat → List (List UInt8) → Except SourceError (List Offering)
  | _, [] => .ok []
  | n, l :: r =>
    match offeringOf p n l with
    | .error e => .error e
    | .ok o =>
      match offeringsOf p (n + 1) r with
      | .error e => .error e
      | .ok os => .ok (o.toList ++ os)

/-- Reads all offerings. -/
def fetchOfferings (x : ExportDirectory) : SourceCall Empty (List Offering) := do
  let bytes ← x.readOfferings
  .returns (offeringsOf (x.path / ⟨offeringsFile⟩) 1 (byteLines bytes))

/-- Counts the offerings, then delivers them as they are read. -/
def streamOfferings (x : ExportDirectory) : SourceCall Offering Unit := do
  let p := x.path / ⟨offeringsFile⟩
  let count ← .returns (countLines p (byteLines (← x.readOfferings)))
  .announce count
  eachOffering p .deliver 1 (byteLines (← x.readOfferings))

/-- Delivers the offerings of lines, each with its index. The first line has the number `n`, and the
first offering gets the index `i`. -/
def eachIndexed (p : Path) : Nat → Nat → List (List UInt8) → SourceCall (Offering × Nat) Unit
  | _, _, [] => pure ()
  | n, i, l :: r =>
    match offeringOf p n l with
    | .error e => .fail e
    | .ok none => eachIndexed p (n + 1) i r
    | .ok (some o) => do
      .deliver (o, i)
      eachIndexed p (n + 1) (i + 1) r

/-- Streams the offerings to a hearer that is also told where in the stream each stands. -/
def streamIndexed (x : ExportDirectory) : SourceCall (Offering × Nat) Unit := do
  let p := x.path / ⟨offeringsFile⟩
  let count ← .returns (countLines p (byteLines (← x.readOfferings)))
  .announce count
  eachIndexed p 1 0 (byteLines (← x.readOfferings))

def unitMappings (x : ExportDirectory) : Source UnitMapping := .ofFetch false x.fetchUnitMappings

def offerings (x : ExportDirectory) : Source Offering := ⟨true, x.fetchOfferings, x.streamOfferings⟩

end ExportDirectory

end SensorCache
