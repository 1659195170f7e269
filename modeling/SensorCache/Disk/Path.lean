/-!
# Paths

A path is kept as its text, since texts of paths appear in messages. Where it leads is for the disk
to say.
-/

namespace SensorCache

structure Path where
  text : String
  deriving DecidableEq, Inhabited

namespace Path

def isAbsolute (p : Path) : Bool := p.text.toList.head? == some '/'

/-- `q` taken from `p` on; an absolute `q` stands for itself. -/
def join (p q : Path) : Path :=
  if q.isAbsolute || p.text.isEmpty then q
  else if p.text.toList.getLast? == some '/' then ⟨p.text ++ q.text⟩
  else ⟨p.text ++ "/" ++ q.text⟩

instance : Div Path := ⟨join⟩

/-- The parts of a text between slashes. -/
def partsFrom : List Char → List Char → List String
  | pending, [] => [String.ofList pending.reverse]
  | pending, c :: r =>
    if c = '/' then String.ofList pending.reverse :: partsFrom [] r else partsFrom (c :: pending) r

def parts (p : Path) : List String := partsFrom [] p.text.toList

/-- Takes slashes and single dots that stand for nothing off the end of a path, last character
first, but not its root. -/
def dropIdleEnd : List Char → List Char
  | ['/'] => ['/']
  | '/' :: r => dropIdleEnd r
  | '.' :: '/' :: r => dropIdleEnd ('/' :: r)
  | s => s
termination_by s => s.length
decreasing_by all_goals simp

/-- The path of the directory that the last step of `p` is taken in. -/
def parent (p : Path) : Path :=
  let ended := dropIdleEnd p.text.toList.reverse
  ⟨String.ofList (dropIdleEnd (ended.dropWhile (· != '/'))).reverse⟩

/-- The name that the last step of a path goes to, if it goes to one. -/
def fileName? (p : Path) : Option String :=
  let ended := dropIdleEnd p.text.toList.reverse
  let name := String.ofList (ended.takeWhile (· != '/')).reverse
  if ["", ".", ".."].contains name then none else some name

end Path

end SensorCache
