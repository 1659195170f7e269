import SensorCache.Disk.Path
import SensorCache.Text.Lines

/-!
# Arguments

The program is called with options, a command, and what the command takes. An option is a word that
begins with a minus sign; the value of one that takes a value follows an equals sign, or is the next
word, which then does not look like an option. The word after `--` is never an option, but no
command either.
-/

namespace SensorCache

/-- The kinds of entities that are cached. -/
inductive MetadataKind where
  | unitMappings
  | offerings
  deriving DecidableEq, Inhabited

/-- What the program is to do. -/
inductive Command where
  /-- Keeps the caches refreshed until it is interrupted. -/
  | run
  /-- Refreshes the caches once. -/
  | refresh
  /-- Tells how the lock and the caches stand. -/
  | status
  /-- Prints the entities of a cache. -/
  | print (kind : MetadataKind)
  deriving DecidableEq, Inhabited

structure Invocation where
  config : Option Path
  logFile : Option Path
  command : Command
  deriving DecidableEq, Inhabited

/-- What arguments ask for. -/
inductive Request where
  | version
  | help
  | invoke (i : Invocation)
  deriving DecidableEq, Inhabited

namespace Arguments

/-! ## Words -/

/-- An option that takes a value. -/
inductive Setting where
  | config
  | logFile
  deriving DecidableEq, Inhabited

/-- What a word is. -/
inductive Word where
  | version
  | help
  | setting (s : Setting) (attached : Option String)
  | plain
  | unknown
  deriving DecidableEq, Inhabited

/-- A word after its two minus signs. -/
def longWord (s : List Char) : Word :=
  let (name, value) := match Text.splitFirst? (· == '=') s with
    | some (name, value) => (name, some (String.ofList value))
    | none => (s, none)
  match String.ofList name, value with
  | "config", v => .setting .config v
  | "log-file", v => .setting .logFile v
  | "help", none => .help
  | "version", none => .version
  | _, _ => .unknown

/-- The value that follows the letter of an option in one word. -/
def attachedValue : List Char → Option String
  | [] => none
  | '=' :: r => some (String.ofList r)
  | r => some (String.ofList r)

/-- A word after its only minus sign; what follows a letter that takes no value is not looked at. -/
def shortWord (c : Char) (rest : List Char) : Word :=
  match c with
  | 'c' => .setting .config (attachedValue rest)
  | 'h' => .help
  | 'V' => .version
  | _ => .unknown

def word (a : String) : Word :=
  match a.toList with
  | '-' :: '-' :: r => longWord r
  | '-' :: c :: r => shortWord c r
  | _ => .plain

/-! ## Reading -/

/-- The values given for settings. -/
structure Values where
  config : Option Path := none
  logFile : Option Path := none
  deriving DecidableEq, Inhabited

/-- Gives a setting its value, which is not empty and the only one. -/
def Values.give? (v : Values) (s : Setting) (text : String) : Option Values :=
  if text.isEmpty then none
  else
    match s with
    | .config => if v.config.isSome then none else some { v with config := some ⟨text⟩ }
    | .logFile => if v.logFile.isSome then none else some { v with logFile := some ⟨text⟩ }

/-- A command as far as it is read. -/
inductive Pending where
  | complete (c : Command)
  /-- The kind to print is missing. -/
  | kind
  deriving DecidableEq, Inhabited

/-- Takes a word of the command. -/
def Pending.take? (p : Pending) (a : String) : Option Pending :=
  match p, a with
  | .kind, "unit-mappings" => some (.complete (.print .unitMappings))
  | .kind, "offerings" => some (.complete (.print .offerings))
  | _, _ => none

/-- Reads what follows a command; after `--` all words are `plain`. -/
def readRest (v : Values) : Bool → Pending → List String → Option Request
  | _, .complete c, [] => some (.invoke ⟨v.config, v.logFile, c⟩)
  | _, .kind, [] => none
  | plain, p, a :: rest =>
    if !plain && a == "--" then readRest v true p rest
    else if plain || word a = .plain then (p.take? a).bind fun p => readRest v plain p rest
    else if word a = .help then some .help
    else none

/-- The command of a name. -/
def command? (name : String) : Option Pending :=
  match name with
  | "run" => some (.complete .run)
  | "refresh" => some (.complete .refresh)
  | "status" => some (.complete .status)
  | "show" => some .kind
  | _ => none

/-- Reads what follows `help`: the name of a command or nothing. -/
def readHelp : List String → Option Request
  | [] => some .help
  | [name] => if name == "help" || (command? name).isSome then some .help else none
  | _ => none

/-- Reads the options and then the command. -/
def readOptions (v : Values) : List String → Option Request
  | [] => none
  | a :: rest =>
    match word a with
    | .version => some .version
    | .help => some .help
    | .unknown => none
    | .plain =>
      if a == "help" then readHelp rest else (command? a).bind fun p => readRest v false p rest
    | .setting s (some text) => (v.give? s text).bind fun v => readOptions v rest
    | .setting s none =>
      match rest with
      | [] => none
      | text :: rest =>
        if word text = .plain then (v.give? s text).bind fun v => readOptions v rest else none

end Arguments

/-- What the arguments ask for, unless they are not understood. -/
def Request.read? (args : List String) : Option Request := Arguments.readOptions {} args

end SensorCache
