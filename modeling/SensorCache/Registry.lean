import SensorCache.Cache.Lock
import SensorCache.Digest.Sha256
import SensorCache.Refresh.Target

/-!
# The caches of a store

Each backing store has a directory of its own below a base directory, named by the digest of the
store's identity, with one cache for each kind of entity and one lock for all. Unit mappings are
kept when a new batch does not mention them; offerings are replaced as a whole.
-/

namespace SensorCache

open Time

/-- The caches of one backing store. -/
structure CacheRegistry where
  dir : Path
  lock : UpdateLock
  unitMappings : EntityCache UnitMapping
  offerings : EntityCache Offering

/-- How one cache stands. -/
structure CacheStatus where
  name : String
  hasContent : Bool
  requiresUpdate : Bool
  lastUpdated : Option Instant
  /-- There is no snapshot yet, but a population has begun. -/
  isPartial : Bool

namespace CacheRegistry

/-- The directory of the store with an identity. -/
def directoryFor (base : Path) (identity : String) : Path := base / ⟨Sha256.hex identity⟩

/-- Opens the caches of a store. -/
def openIn (base : Path) (identity : String) (freshness : Span) :
    Attempt CacheError CacheRegistry := do
  let dir := directoryFor base identity
  let units ← EntityCache.openIn UnitMapping dir ⟨freshness, true⟩
  let offerings ← EntityCache.openIn Offering dir ⟨freshness, false⟩
  return ⟨dir, .inDirectory dir, units, offerings⟩

/-- The caches as targets of refreshes, unit mappings first. -/
def targets {σ : Type} (r : CacheRegistry) (units : Source UnitMapping)
    (offerings : Source Offering) : List (Target σ) :=
  [r.unitMappings.target units, r.offerings.target offerings]

def statusOf {α : Type} [Entity α] (c : EntityCache α) : Routine CacheStatus := do
  let content ← c.hasContent
  let stale ← c.requiresUpdate
  let updated ← c.lastUpdated
  let unfinished ← c.files.workHasContent
  return ⟨c.name, content, stale, updated, !content && unfinished⟩

def status (r : CacheRegistry) : Routine (List CacheStatus) := do
  return [← statusOf r.unitMappings, ← statusOf r.offerings]

end CacheRegistry

end SensorCache
