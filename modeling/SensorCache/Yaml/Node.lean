import SensorCache.Yaml.Token

/-!
# YAML documents

The value that a text stands for, from its tokens: scalars, sequences, mappings, and aliases of
nodes that have an anchor. A text may have one document at most; one without any is as one with an
empty scalar. Aliases stay in the tree, since a node may have an alias of itself within.
-/

namespace SensorCache.Yaml

inductive Node where
  | scalar (style : Style) (tag : Option (List Char)) (text : List Char)
  | sequence (items : List Node)
  | mapping (entries : List (Node × Node))
  /-- The node with the anchor of a number. -/
  | alias (anchor : Nat)
  deriving Inhabited

/-- The plain scalar without any text. -/
def Node.empty : Node := .scalar .plain none []

/-- A document with the nodes that have anchors. -/
structure Document where
  root : Node
  anchored : List (Nat × Node)
  deriving Inhabited

/-- The tokens that are left, and what directives and anchors have said so far. -/
structure Reading where
  tokens : List Token
  /-- What the handles of tags stand for. -/
  handles : List (List Char × List Char)
  /-- The names of anchors with their numbers, the last first. -/
  names : List (List Char × Nat)
  anchored : List (Nat × Node)
  deriving Inhabited

/-- A reader of nodes, which may refuse the tokens. -/
abbrev Reader := StateT Reading Option

namespace Reader

def refuse {α : Type} : Reader α := fun _ => none

def peek : Reader (Option Token) := do return (← get).tokens.head?

def skip : Reader Unit := modify fun r => { r with tokens := r.tokens.drop 1 }

/-- Takes a token off that has to be the next. -/
def expect (t : Token) : Reader Unit := do
  if (← peek) == some t then skip else refuse

/-! ## Properties of nodes -/

/-- What stands before the content of a node: its anchor and its tag, in either order. -/
structure Properties where
  anchor : Option (List Char)
  tag : Option (List Char × List Char)
  deriving Inhabited

def anchor? : Reader (Option (List Char)) := do
  match ← peek with
  | some (.anchor name) =>
    skip
    return some name
  | _ => return none

def tag? : Reader (Option (List Char × List Char)) := do
  match ← peek with
  | some (.tag handle suffix) =>
    skip
    return some (handle, suffix)
  | _ => return none

def properties : Reader Properties := do
  match ← anchor? with
  | some name => return ⟨some name, ← tag?⟩
  | none =>
    let tag ← tag?
    if tag.isSome then return ⟨← anchor?, tag⟩ else return ⟨none, none⟩

/-- The text of a tag. -/
def tagOf : Option (List Char × List Char) → Reader (Option (List Char))
  | none => return none
  | some ([], suffix) => return some suffix
  | some (handle, suffix) => do
    match (← get).handles.lookup handle with
    | some start => return some (start ++ suffix)
    | none => refuse

/-- Gives an anchor its number. -/
def number : Option (List Char) → Reader (Option Nat)
  | none => return none
  | some name => do
    let n := (← get).names.length
    modify fun r => { r with names := (name, n) :: r.names }
    return some n

/-- Notes the node of an anchor. -/
def note (anchor : Option Nat) (n : Node) : Reader Node := do
  match anchor with
  | some i => modify fun r => { r with anchored := (i, n) :: r.anchored }
  | none => pure ()
  return n

/-- A tag that leaves the meaning of a scalar open. -/
def openTag : List Char := ['!']

/-! ## Nodes -/

/-- Whether the next token is one of those that leave a place empty. -/
def atOneOf (ts : List Token) : Reader Bool := do return (← peek).any ts.contains

/-- A node without content has an anchor or a tag. -/
def emptyNode (p : Properties) (tag : Option (List Char)) (i : Option Nat) : Reader Node :=
  if p.anchor.isSome || p.tag.isSome then note i (.scalar .plain tag []) else refuse

mutual

/-- A node, in `n` turns at most. A sequence right below the key of a block need not be indented
more than the key. -/
def node : Nat → Bool → Bool → Reader Node
  | 0, _, _ => refuse
  | n + 1, block, belowKey => do
    match ← peek with
    | some (.alias name) =>
      skip
      match (← get).names.lookup name with
      | some i => return .alias i
      | none => refuse
    | _ =>
      let p ← properties
      let tag ← tagOf p.tag
      let i ← number p.anchor
      match ← peek with
      | some (.scalar style text) =>
        skip
        note i (.scalar style (if tag == some openTag then none else tag) text)
      | some .flowSequence =>
        skip
        note i (.sequence (← flowItems n true))
      | some .flowMapping =>
        skip
        note i (.mapping (← flowEntries n true))
      | some .entry =>
        if belowKey then note i (.sequence (← looseItems n)) else emptyNode p tag i
      | some .blockSequence =>
        if block then
          skip
          note i (.sequence (← items n))
        else emptyNode p tag i
      | some .blockMapping =>
        if block then
          skip
          note i (.mapping (← entries n))
        else emptyNode p tag i
      | _ => emptyNode p tag i

/-- A node, or an empty one where one of the tokens follows. -/
def nodeBefore : Nat → List Token → Bool → Bool → Reader Node
  | 0, _, _, _ => refuse
  | n + 1, ts, block, belowKey => do
    if ← atOneOf ts then return .empty else node n block belowKey

/-- The items of a block sequence, up to its end. -/
def items : Nat → Reader (List Node)
  | 0 => refuse
  | n + 1 => do
    match ← peek with
    | some .entry =>
      skip
      let v ← nodeBefore n [.entry, .blockEnd] true false
      return v :: (← items n)
    | some .blockEnd =>
      skip
      return []
    | _ => refuse

/-- The items of a sequence that is not indented. -/
def looseItems : Nat → Reader (List Node)
  | 0 => refuse
  | n + 1 => do
    match ← peek with
    | some .entry =>
      skip
      let v ← nodeBefore n [.entry, .key, .value, .blockEnd] true false
      return v :: (← looseItems n)
    | _ => return []

/-- The value of an entry, empty where there is none. -/
def valueBefore : Nat → List Token → Bool → Reader Node
  | 0, _, _ => refuse
  | n + 1, ts, block => do
    if (← peek) == some .value then
      skip
      nodeBefore n ts block block
    else return .empty

/-- The entries of a block mapping, up to its end. -/
def entries : Nat → Reader (List (Node × Node))
  | 0 => refuse
  | n + 1 => do
    match ← peek with
    | some .key =>
      skip
      let k ← nodeBefore n [.key, .value, .blockEnd] true true
      let v ← valueBefore n [.key, .value, .blockEnd] true
      return (k, v) :: (← entries n)
    | some .blockEnd =>
      skip
      return []
    | _ => refuse

/-- The items of a sequence in brackets. A key makes an item a mapping of one entry. -/
def flowItems : Nat → Bool → Reader (List Node)
  | 0, _ => refuse
  | n + 1, first => do
    if (← peek) == some .flowSequenceEnd then
      skip
      return []
    if !first then expect .comma
    match ← peek with
    | some .flowSequenceEnd =>
      skip
      return []
    | some .key =>
      skip
      let v ← pair n
      return v :: (← flowItems n false)
    | _ =>
      let v ← node n false false
      return v :: (← flowItems n false)

/-- The mapping of one entry. A key that is missing takes the token in its place with it. -/
def pair : Nat → Reader Node
  | 0 => refuse
  | n + 1 => do
    let k ← if ← atOneOf [.value, .comma, .flowSequenceEnd] then (do
        skip
        return Node.empty)
      else node n false false
    let v ← valueBefore n [.comma, .flowSequenceEnd] false
    return .mapping [(k, v)]

/-- The entries of a mapping in brackets. -/
def flowEntries : Nat → Bool → Reader (List (Node × Node))
  | 0, _ => refuse
  | n + 1, first => do
    if (← peek) == some .flowMappingEnd then
      skip
      return []
    if !first then expect .comma
    match ← peek with
    | some .flowMappingEnd =>
      skip
      return []
    | some .key =>
      skip
      let k ← nodeBefore n [.value, .comma, .flowMappingEnd] false false
      let v ← valueBefore n [.comma, .flowMappingEnd] false
      return (k, v) :: (← flowEntries n false)
    | _ =>
      let k ← node n false false
      return (k, .empty) :: (← flowEntries n false)

end

/-! ## Documents -/

/-- The handles that need no directive. -/
def commonHandles : List (List Char × List Char) :=
  [(['!'], ['!']), (['!', '!'], "tag:yaml.org,2002:".toList)]

/-- The directives before a document: one version at most, and no handle twice. -/
def directives (version : Bool) : Nat → Reader Unit
  | 0 => refuse
  | n + 1 => do
    match ← peek with
    | some (.version major minor) =>
      if version || major != 1 || (minor != 1 && minor != 2) then refuse
      skip
      directives true n
    | some (.tagHandle handle start) =>
      if ((← get).handles.lookup handle).isSome then refuse
      skip
      modify fun r => { r with handles := (handle, start) :: r.handles }
      directives version n
    | _ => return

def startsDocument : Token → Bool
  | .version .. | .tagHandle .. | .documentStart => true
  | _ => false

/-- The content of a document after its mark. -/
def content (n : Nat) : Reader Node := do
  match ← peek with
  | none => return .empty
  | some t =>
    if startsDocument t || t == .documentEnd then return .empty else node n true false

/-- The root of the only document, if there is one. -/
def root (n : Nat) : Reader Node := do
  match ← peek with
  | none => return .empty
  | some t =>
    if startsDocument t then
      directives false n
      expect .documentStart
      modify fun r => { r with handles := r.handles ++ commonHandles }
      content n
    else
      modify fun r => { r with handles := commonHandles }
      node n true false

/-- The whole text: a document, and then nothing but marks of its end. -/
def document (n : Nat) : Reader Document := do
  let v ← root n
  let r ← get
  if r.tokens.all (· == .documentEnd) then return ⟨v, r.anchored⟩ else refuse

end Reader

/-- The document of a text. A node takes two turns a token at most. -/
def Document.parse? (s : List Char) : Option Document := do
  let tokens ← tokens? (← cells? s)
  let (d, _) ← Reader.document (4 * tokens.length + 4) ⟨tokens, [], [], []⟩
  return d

namespace Document

/-! ## Values of other types -/

/-- What a node stands for that may be an alias. -/
def resolve (d : Document) : Node → Node
  | .alias i => (d.anchored.lookup i).getD .empty
  | n => n

/-- The text of a scalar, however it is written. -/
def text? (d : Document) (n : Node) : Option String :=
  match d.resolve n with
  | .scalar _ _ t => some (String.ofList t)
  | _ => none

/-- The name of a tag that YAML itself defines. -/
def ownTag (name : String) : List Char := ("tag:yaml.org,2002:" ++ name).toList

/-- The text of a scalar that may be something else than a text: a plain one, or a literal one that
is tagged for it. -/
def untyped? (d : Document) (kind : String) (n : Node) : Option (List Char) :=
  match d.resolve n with
  | .scalar .plain _ t => some t
  | .scalar .literal (some tag) t => if tag == ownTag kind then some t else none
  | _ => none

def bool? (d : Document) (n : Node) : Option Bool := do
  let t ← d.untyped? "bool" n
  if ["true", "True", "TRUE"].contains (String.ofList t) then some true
  else if ["false", "False", "FALSE"].contains (String.ofList t) then some false
  else none

/-- The value of digits of a base, at least one. -/
def digits? (base : Nat) (t : List Char) : Option Nat :=
  if t.isEmpty then none
  else t.foldlM (fun n c => do
    let v ← Text.hexValue? c
    if v < base then some (base * n + v) else none) 0

/-- A number without a sign but for a plus: decimal without leading zeros, or after `0x`, `0o` or
`0b`. -/
def numeral? (t : List Char) : Option Nat :=
  let t := if t.head? == some '+' then t.drop 1 else t
  match t with
  | '0' :: 'x' :: r => digits? 16 r
  | '0' :: 'o' :: r => digits? 8 r
  | '0' :: 'b' :: r => digits? 2 r
  | '0' :: _ :: _ => none
  | _ => digits? 10 t

/-- A natural number below `bound`. -/
def natural? (d : Document) (bound : Nat) (n : Node) : Option Nat := do
  let v ← numeral? (← d.untyped? "int" n)
  if v < bound then some v else none

def isNullWord (t : List Char) : Bool := ["null", "Null", "NULL", "~"].contains (String.ofList t)

/-- A node that may be null. A plain scalar without a tag is, if it is empty or has a word for
it. -/
def nullable? {α : Type} (d : Document) (read : Node → Option α) (n : Node) : Option (Option α) :=
  match d.resolve n with
  | .scalar .plain none t => if t.isEmpty || isNullWord t then some none else (read n).map some
  | .scalar .plain (some tag) t =>
    if tag == ownTag "null" then if isNullWord t then some none else none else (read n).map some
  | _ => (read n).map some

/-- The entries of a mapping by key. An empty plain scalar counts as a mapping without any. -/
def members? (d : Document) (n : Node) : Option (List (String × Node)) :=
  match d.resolve n with
  | .mapping es => es.mapM fun (k, v) => do return (← d.text? k, v)
  | .scalar .plain _ [] => some []
  | _ => none

/-- The value of the key `name`. None at all is fine, two are not. -/
def member? (ms : List (String × Node)) (name : String) : Option (Option Node) :=
  match ms.filter fun m => m.1 == name with
  | [] => some none
  | [m] => some (some m.2)
  | _ => none

/-- The value of a key, read, or another one where there is none. -/
def field? {α : Type} (ms : List (String × Node)) (name : String) (missing : Option α)
    (read : Node → Option α) : Option α := do
  match ← member? ms name with
  | some n => read n
  | none => missing

end Document

end SensorCache.Yaml
