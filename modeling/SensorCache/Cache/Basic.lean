import SensorCache.Cache.Files
import SensorCache.Refresh.Trigger

/-!
# Caches of entities

The cache of one kind of entity: its files, and a policy that says when its snapshot is stale and
whether a new batch keeps the entities it does not mention. Whole batches go through the work file
and are promoted. While a population is filling the work file of a cache that has no snapshot yet,
readers get what is there so far; with nothing there at all they ask for a refresh and fail.
-/

namespace SensorCache

open Time

/-- When a cache's snapshot is stale, and whether new batches keep earlier entities. -/
structure CachePolicy where
  freshness : Span := .ofSeconds 900
  keepsPrevious : Bool := false
  deriving DecidableEq, Inhabited

/-- Which file an answer came from. -/
inductive Provenance where
  /-- The snapshot, not older than the freshness allows. -/
  | durable
  /-- A snapshot that is too old, served all the same. -/
  | stale
  /-- The work file of a population that has not been promoted. -/
  | unfinished
  deriving DecidableEq, Inhabited

/-- An answer, where it came from and when that was written. -/
structure Reading (α : Type) where
  data : Keyed α
  provenance : Provenance
  cachedAt : Option Instant

/-- The cache of the entities of one kind. -/
structure EntityCache (α : Type) where
  files : CacheFiles
  policy : CachePolicy

namespace EntityCache

variable {α : Type} [Entity α]

def name (_ : EntityCache α) : String := Entity.kind α

/-- Opens the cache in a directory; files that are missing are made. -/
def openIn (α : Type) [Entity α] (dir : Path) (policy : CachePolicy) :
    Attempt CacheError (EntityCache α) := do
  let files := CacheFiles.ofKind dir (Entity.kind α)
  files.ensure
  return ⟨files, policy⟩

/-- Whether a snapshot of the given time is too old at `now`; one that is missing always is. -/
def isStale (c : EntityCache α) (now : Instant) (modified : Option Instant) : Bool :=
  match modified with
  | some t => t ≤ now && c.policy.freshness < now.since t
  | none => true

/-- The entities of the snapshot and its time. -/
def readDurable (c : EntityCache α) : Attempt CacheError (Reading α) := do
  let data ← c.files.readSnapshot α
  let now ← Disk.now
  let modified ← c.files.snapshotModified
  let provenance := if c.isStale now modified then .stale else .durable
  return ⟨data, provenance, modified⟩

/-- The cached entities and which file they are from, and the trigger, which is asked for a refresh
when there are none. -/
def snapshot (c : EntityCache α) (t : Trigger) :
    Routine (Except CacheError (Reading α) × Trigger) := do
  if ← c.files.snapshotHasContent then
    return (← c.readDurable.outcome, t)
  else if ← c.files.workHasContent then
    match ← (c.files.readWork α).outcome with
    | .ok data => return (.ok ⟨data, .unfinished, none⟩, t)
    | .error e => return (.error e, t)
  else return (.error (.notYetAvailable c.name), t.request)

/-- The cached entities. -/
def get (c : EntityCache α) (t : Trigger) : Routine (Except CacheError (Keyed α) × Trigger) := do
  let (r, t) ← c.snapshot t
  return (r.map Reading.data, t)

/-- A batch together with the entities of the snapshot that it does not mention. -/
def withPrevious (c : EntityCache α) (batch : Keyed α) : Attempt CacheError (Keyed α) := do
  return (← c.files.readSnapshot α).overlay batch

/-- Puts a batch into the work file and promotes it. Gives the number of entities. -/
def storeBatch (c : EntityCache α) (batch : Keyed α) : Attempt CacheError Nat := do
  let stored ← c.files.writeWork batch.values
  c.files.promoteWork
  return stored

def batchOf (es : List α) : Keyed α := Keyed.ofList (es.map fun e => (Entity.key e, e))

/-- Makes the entities the snapshot; of two with one key the later is kept. -/
def storeAll (c : EntityCache α) (es : List α) : Attempt CacheError Nat := do
  if c.policy.keepsPrevious then c.storeBatch (← c.withPrevious (batchOf es))
  else c.storeBatch (batchOf es)

/-- Adds an entity to the population going on in the work file. -/
def storeOne (c : EntityCache α) (e : α) : Attempt CacheError Unit := c.files.appendWork e

/-- Begins a population with an empty work file. -/
def beginStreaming (c : EntityCache α) : Attempt CacheError Unit := c.files.clearWork

/-- Makes the population in the work file the snapshot. -/
def promoteWorkFile (c : EntityCache α) : Attempt CacheError Nat := do
  let streamed ← c.files.readWork α
  if c.policy.keepsPrevious then c.storeBatch (← c.withPrevious streamed)
  else
    c.files.promoteWork
    return streamed.size

/-- Whether the snapshot is missing, empty or too old at `now`. -/
def requiresUpdateAt (c : EntityCache α) (now : Instant) : Routine Bool := do
  if ← c.files.snapshotHasContent then return c.isStale now (← c.files.snapshotModified)
  else return true

def requiresUpdate (c : EntityCache α) : Routine Bool := do c.requiresUpdateAt (← Disk.now)

def isAvailable (c : EntityCache α) : Routine Bool := c.files.snapshotExists

def hasContent (c : EntityCache α) : Routine Bool := c.files.snapshotHasContent

/-- When the snapshot was last written. -/
def lastUpdated (c : EntityCache α) : Routine (Option Instant) := c.files.snapshotModified

end EntityCache

end SensorCache
