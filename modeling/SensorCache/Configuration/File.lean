import SensorCache.Configuration.Basic
import SensorCache.Disk.Routine
import SensorCache.Yaml.Node

/-!
# Configuration files

A configuration file is a YAML mapping with the sections `source` and `cache`; fields that are not
known are ignored. It is the file that is named, or the one in the current directory, or the one of
the user, the first that is there.
-/

namespace SensorCache

/-- What is wrong with a text is wrong with its file. -/
def ConfigurationError.ofFile (p : Path) : ConfigurationError → ConfigurationError
  | .updateTime text => .fileUpdateTime p text
  | _ => .malformedFile p

namespace Configuration

open Yaml

/-! ## Reading -/

/-- Numbers of seconds are smaller than this. -/
def secondsBound : Nat := 0x10000000000000000

/-- The configuration of a document. -/
def ofDocument? (d : Document) : Option Configuration := do
  let sections ← d.members? d.root
  let source ← Document.field? sections "source" none d.members?
  let cache ← Document.field? sections "cache" (some []) d.members?
  let seconds (name : String) (missing : Nat) : Option Nat :=
    Document.field? cache name (some missing) (d.natural? secondsBound)
  let path (n : Yaml.Node) : Option Path := (d.text? n).map Path.mk
  let identity ← Document.field? source "identity" none d.text?
  let usual : Configuration := { identity := identity, exportDir := ⟨""⟩ }
  return {
    identity := identity
    exportDir := ← Document.field? source "snapshot_dir" none path
    directory := ← Document.field? cache "directory" (some usual.directory) (d.nullable? path)
    updateOnStartup :=
      ← Document.field? cache "update_on_startup" (some usual.updateOnStartup) d.bool?
    updateTime := ← Document.field? cache "update_time" (some usual.updateTime) d.text?
    freshness := ← seconds "freshness_secs" usual.freshness
    callTimeout := ← seconds "call_timeout_secs" usual.callTimeout
    streamingTimeout := ← seconds "streaming_timeout_secs" usual.streamingTimeout
    maxLockAge := ← seconds "max_lock_age_secs" usual.maxLockAge
    stallThreshold := ← seconds "stall_threshold_secs" usual.stallThreshold }

/-- The configuration of a YAML text. Its daily time has to be one. -/
def parse (s : String) : Except ConfigurationError Configuration := do
  match (Document.parse? s.toList).bind ofDocument? with
  | none => throw .malformed
  | some c =>
    let _ ← c.timeOfDay
    return c

/-! ## Finding -/

/-- A variable that names a directory; only an absolute path counts. -/
def directoryOf? (lookup : String → Option String) (name : String) : Option Path :=
  ((lookup name).map Path.mk).filter Path.isAbsolute

/-- A directory of the user: the one that a variable names, or the usual one in their home. -/
def userDirectory? (lookup : String → Option String) (name usual : String) : Option Path :=
  match directoryOf? lookup name with
  | some p => some p
  | none => ((lookup "HOME").filter fun h => !h.isEmpty).map fun h => ⟨h⟩ / ⟨usual⟩

/-- The places where a file is looked for that was not named. -/
def searched (lookup : String → Option String) : List Path :=
  ⟨"sosmeta.yaml"⟩ ::
    (userDirectory? lookup "XDG_CONFIG_HOME" ".config").toList.map fun p =>
      p / ⟨"sosmeta"⟩ / ⟨"config.yaml"⟩

/-- The first path at which there is something. -/
def firstThere : List Path → Routine (Option Path)
  | [] => return none
  | p :: r => do if (← Disk.look p).isSome then return some p else firstThere r

/-- The path of the file to read. -/
def find (lookup : String → Option String) (named : Option Path) :
    Attempt ConfigurationError Path := do
  match named with
  | some p => if (← Disk.look p).isSome then return p else .fail (.fileNotFound p)
  | none =>
    match ← firstThere (searched lookup) with
    | some p => return p
    | none => .fail .noFile

/-- The configuration of the file that is named, or found. -/
def load (lookup : String → Option String) (named : Option Path) :
    Attempt ConfigurationError Configuration := do
  let p ← find lookup named
  let text ← (Disk.readText p).because (.unreadable p)
  match parse text with
  | .error e => .fail (ConfigurationError.ofFile p e)
  | .ok c =>
    let o := c.override lookup
    match o.failure with
    | some e => .fail e
    | none => return o.configuration

/-- The base of all cache directories. -/
def cacheDir (c : Configuration) (lookup : String → Option String) :
    Except ConfigurationError Path :=
  match c.directory with
  | some p => .ok p
  | none =>
    match userDirectory? lookup "XDG_CACHE_HOME" ".cache" with
    | some p => .ok (p / ⟨"sosmeta"⟩)
    | none => .error .noCacheDirectory

end Configuration

end SensorCache
