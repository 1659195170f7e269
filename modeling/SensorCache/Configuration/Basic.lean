import SensorCache.Disk.Basic
import SensorCache.Refresh.Settings
import SensorCache.Time.Clock

/-!
# Configurations

What a configuration says: which store to cache and where its export is, where the caches lie, and
the timing of refreshes. The daily time is kept as the text that was given, which is read again by
whoever needs it. Variables of the environment may override some settings; a variable with a bad
value ends that, with the variables before it having had their effect.
-/

namespace SensorCache

open Time

structure Configuration where
  /-- The identity of the store, which selects its cache directory. -/
  identity : String
  /-- The directory with the export of the store. -/
  exportDir : Path
  /-- The base of all cache directories, if it is not the usual one. -/
  directory : Option Path := none
  updateOnStartup : Bool := true
  updateTime : String := "03:00"
  freshness : Nat := 900
  callTimeout : Nat := 300
  streamingTimeout : Nat := 3600
  maxLockAge : Nat := 43200
  stallThreshold : Nat := 600
  deriving DecidableEq, Inhabited

/-- Why there is no configuration, or not the one that was asked for. -/
inductive ConfigurationError where
  /-- The text is no YAML, or says something else than a configuration. -/
  | malformed
  | updateTime (text : String)
  /-- A switch of the environment is neither on nor off. -/
  | switch (name value : String)
  /-- The daily time of the environment is none. -/
  | variableTime (name value : String)
  | fileNotFound (p : Path)
  | noFile
  | unreadable (p : Path) (e : OsError)
  | malformedFile (p : Path)
  | fileUpdateTime (p : Path) (text : String)
  | noCacheDirectory
  deriving DecidableEq, Inhabited

namespace ConfigurationError

def updateTimeMessage (text : String) : String :=
  "Invalid update time '" ++ text ++ "', expected HH:MM"

def message : ConfigurationError → String
  | .malformed => "Malformed configuration"
  | .updateTime text => updateTimeMessage text
  | .switch name value => name ++ " must be true or false, got '" ++ value ++ "'"
  | .variableTime name value => name ++ ": " ++ updateTimeMessage value
  | .fileNotFound p => "Config file not found: " ++ p.text
  | .noFile =>
    "No configuration file found. Create one at ~/.config/sosmeta/config.yaml\n" ++
      "See sosmeta.example.yaml for the format."
  | .unreadable p e => "Failed to read config file " ++ p.text ++ ": " ++ e.message
  | .malformedFile p => "Failed to parse config file " ++ p.text
  | .fileUpdateTime p text =>
    "Failed to parse config file " ++ p.text ++ ": " ++ updateTimeMessage text
  | .noCacheDirectory => "No cache directory configured and no platform cache dir available"

end ConfigurationError

namespace Configuration

/-! ## Timing -/

/-- The daily time of refreshes. -/
def timeOfDay (c : Configuration) : Except ConfigurationError TimeOfDay :=
  match TimeOfDay.parse? c.updateTime.toList with
  | some t => .ok t
  | none => .error (.updateTime c.updateTime)

/-- The settings of a scheduler. Its monitor looks at locks after half a period. -/
def scheduleSettings (c : Configuration) : Except ConfigurationError ScheduleSettings := do
  let d : ScheduleSettings := {}
  return { d with
    updateOnStartup := c.updateOnStartup
    updateTime := ← c.timeOfDay
    callTimeout := .ofSeconds c.callTimeout
    streamingTimeout := .ofSeconds c.streamingTimeout
    monitor := ⟨⟨d.period.nanos / 2⟩, .ofSeconds c.maxLockAge, .ofSeconds c.stallThreshold⟩ }

/-! ## Overrides -/

/-- What the environment may override, in the order in which it is asked. -/
inductive Override where
  | startup
  | time
  | directory
  deriving DecidableEq, Inhabited

namespace Override

def all : List Override := [.startup, .time, .directory]

/-- The name of the variable. -/
def name : Override → String
  | .startup => "SOSMETA_UPDATE_CACHE_ON_STARTUP"
  | .time => "SOSMETA_CACHE_UPDATE_TIME"
  | .directory => "SOSMETA_CACHE_DIR"

/-- Whether a word switches something on or off. Blanks around it and its case do not matter. -/
def switch? (s : String) : Option Bool :=
  let word := String.ofList ((Text.trim s.toList).map Char.toLower)
  if ["true", "1", "yes", "on"].contains word then some true
  else if ["false", "0", "no", "off"].contains word then some false
  else none

/-- Puts the value of a variable in the place of a setting. -/
def apply (o : Override) (c : Configuration) (value : String) :
    Except ConfigurationError Configuration :=
  match o with
  | .startup =>
    match switch? value with
    | some b => .ok { c with updateOnStartup := b }
    | none => .error (.switch o.name value)
  | .time =>
    match TimeOfDay.parse? value.toList with
    | some _ => .ok { c with updateTime := value }
    | none => .error (.variableTime o.name value)
  | .directory => .ok { c with directory := some ⟨value⟩ }

end Override

/-- How far overriding came: the configuration then, the variables that were asked for, and the
failure that ended it. -/
structure Overridden where
  configuration : Configuration
  asked : List String
  failure : Option ConfigurationError
  deriving DecidableEq, Inhabited

/-- Overrides settings by the variables that are there. -/
def overrideBy (lookup : String → Option String) :
    List Override → Configuration → List String → Overridden
  | [], c, asked => ⟨c, asked, none⟩
  | o :: rest, c, asked =>
    let asked := asked ++ [o.name]
    match lookup o.name with
    | none => overrideBy lookup rest c asked
    | some value =>
      match o.apply c value with
      | .ok c => overrideBy lookup rest c asked
      | .error e => ⟨c, asked, some e⟩

/-- Overrides settings by the environment. -/
def override (c : Configuration) (lookup : String → Option String) : Overridden :=
  overrideBy lookup Override.all c []

end Configuration

end SensorCache
