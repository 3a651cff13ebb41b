import ScriptMachine.Files.Fault
import ScriptMachine.Files.Path

namespace ScriptMachine

structure FileTree where
  workingFolder : List String
  files : List (List String × List UInt8)
  folders : List (List String) := []

namespace FileTree

inductive Entry where
  | file (bytes : List UInt8)
  | folder
  | nothing

def fileAt? (t : FileTree) (place : List String) : Option (List UInt8) :=
  (t.files.find? (·.1 == place)).map (·.2)

def hasFolder (t : FileTree) (place : List String) : Bool :=
  place.isPrefixOf t.workingFolder || t.folders.any place.isPrefixOf ||
    t.files.any fun f => place.isPrefixOf f.1 && place != f.1

def entry (t : FileTree) (place : List String) : Entry :=
  match t.fileAt? place with
  | some bytes => .file bytes
  | none => if t.hasFolder place then .folder else .nothing

def maxName : Nat := 255

def maxPath : Nat := 4095

def follow (t : FileTree) (place : List String) : List (List Char) → Except FileFault (List String)
  | [] => .ok place
  | segment :: rest =>
    match t.entry place with
    | .file _ => .error .notDirectory
    | .nothing => .error .absent
    | .folder =>
      let name := String.ofList segment
      if Path.isIdle segment then follow t place rest
      else if name = ".." then follow t place.dropLast rest
      else if maxName < name.utf8ByteSize then .error .nameTooLong
      else follow t (place ++ [name]) rest

def resolve (t : FileTree) (p : Path) : Except FileFault (List String) :=
  if p.text.isEmpty then .error .absent
  else if p.text.toList.contains (Char.ofNat 0) then .error .nulInName
  else if maxPath < p.text.utf8ByteSize then .error .nameTooLong
  else t.follow (if p.isAbsolute then [] else t.workingFolder) p.segments

def read (t : FileTree) (p : Path) : Except FileFault (List UInt8) := do
  match t.entry (← t.resolve p) with
  | .file bytes => .ok bytes
  | .folder => .error .isDirectory
  | .nothing => .error .absent

def decodeText (bytes : List UInt8) : Except FileFault String :=
  match String.fromUTF8? ⟨bytes.toArray⟩ with
  | some text => .ok text
  | none => .error .notText

def readText (t : FileTree) (p : Path) : Except FileFault String := do
  decodeText (← t.read p)

def exists_ (t : FileTree) (p : Path) : Bool :=
  match t.resolve p with
  | .ok place =>
    match t.entry place with
    | .nothing => false
    | _ => true
  | .error _ => false

def isFile (t : FileTree) (p : Path) : Bool :=
  match t.resolve p with
  | .ok place => (t.fileAt? place).isSome
  | .error _ => false

def put (t : FileTree) (place : List String) (bytes : List UInt8) : FileTree :=
  { t with files := (place, bytes) :: t.files.filter (·.1 != place) }

def write (t : FileTree) (p : Path) (text : String) : Except FileFault FileTree := do
  let segments := p.segments
  let trailing := segments.getLast? == some []
  let named := (segments.reverse.dropWhile (· == [])).reverse
  if trailing && named.length > 0 then
    let place ← t.resolve ⟨Path.joinSlash named⟩
    let _ ← t.follow place.dropLast [[]]
    .error .isDirectory
  else
    let place ← t.resolve p
    match t.entry place with
    | .folder => .error .isDirectory
    | _ => .ok (t.put place text.toUTF8.toList)

end FileTree

end ScriptMachine
