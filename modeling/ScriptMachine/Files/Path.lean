/-! Paths as texts with slashes. Empty segments and inner dots are kept in the text and skipped when a path is
followed. -/

namespace ScriptMachine

structure Path where
  text : String
deriving DecidableEq, Repr

namespace Path

def splitSlash : List Char → List (List Char)
  | [] => [[]]
  | c :: cs =>
    if c = '/' then [] :: splitSlash cs
    else match splitSlash cs with
      | [] => [[c]]
      | s :: rest => (c :: s) :: rest

def joinSlash (segments : List (List Char)) : String := String.ofList (['/'].intercalate segments)

def segments (p : Path) : List (List Char) := splitSlash p.text.toList

def isAbsolute (p : Path) : Bool := p.text.toList.head? == some '/'

def isIdle (segment : List Char) : Bool := segment == [] || segment == ['.']

def join (p q : Path) : Path :=
  if q.isAbsolute then q
  else if p.text.toList.getLast?.all (· == '/') then ⟨p.text ++ q.text⟩
  else ⟨p.text ++ "/" ++ q.text⟩

def significant (p : Path) : List (List Char) :=
  match p.segments with
  | [] => []
  | first :: rest => first :: (rest.reverse.dropWhile isIdle).reverse

def ofSegments (absolute : Bool) (segments : List (List Char)) : Path :=
  if absolute && segments.length ≤ 1 then ⟨"/"⟩ else ⟨joinSlash segments⟩

def parent? (p : Path) : Option Path :=
  match p.significant with
  | [] | [[]] => none
  | pieces =>
    let trimmed := match pieces.dropLast with
      | [] => []
      | first :: rest => first :: (rest.reverse.dropWhile isIdle).reverse
    some (ofSegments p.isAbsolute trimmed)

def fileName? (p : Path) : Option String :=
  match p.significant.getLast? with
  | none => none
  | some last => if isIdle last || last == ['.', '.'] then none else some (String.ofList last)

inductive Component where
  | root | here | up | entry (name : String)
deriving DecidableEq, Repr

def components (p : Path) : List Component :=
  match p.segments with
  | [] => []
  | first :: rest =>
    let start := if p.isAbsolute then [Component.root] else if first == ['.'] then [.here] else []
    let inner := (if p.isAbsolute || first == ['.'] then rest else first :: rest).filter (!isIdle ·)
    start ++ inner.map fun s => if s == ['.', '.'] then .up else .entry (String.ofList s)

def extension? (p : Path) : Option String :=
  match p.fileName? with
  | none => none
  | some name =>
    let reversed := name.toList.reverse
    let ending := reversed.takeWhile (· ≠ '.')
    if ending.length + 1 < reversed.length then some (String.ofList ending.reverse) else none

def Component.text : Component → String
  | root => "/"
  | here => "."
  | up => ".."
  | entry name => name

/-- The path from the root on, without the segments that lead nowhere. A slash at the end stays, and so do two at
the start. -/
def absolute (workingFolder : List String) (p : Path) : Path :=
  let steps := p.components.filter (· ≠ .here)
  let doubled := p.text.startsWith "//" && !p.text.startsWith "///"
  let start : Path := if doubled then ⟨"//"⟩ else if p.isAbsolute then ⟨""⟩ else ⟨"/" ++ "/".intercalate workingFolder⟩
  let path := (if doubled then steps.drop 1 else steps).foldl (fun q c => q.join ⟨c.text⟩) start
  if p.text.endsWith "/" then path.join ⟨""⟩ else path

def same (p q : Path) : Bool := p.components == q.components

end Path

end ScriptMachine
