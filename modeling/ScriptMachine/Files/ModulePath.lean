import ScriptMachine.Files.Path
import ScriptMachine.Syntax

namespace ScriptMachine

def fileExtension : String := "zer"

def splitDots : List Char → List (List Char)
  | [] => [[]]
  | c :: cs =>
    if c = '.' then [] :: splitDots cs
    else match splitDots cs with
      | [] => [[c]]
      | s :: rest => (c :: s) :: rest

def modulePath? (name : String) (kind : LoadKind) : Option Path :=
  let words := (splitDots name.toList).tail.map String.ofList
  match words.getLast? with
  | none => none
  | some last =>
    let start : Path := ⟨match kind with
      | .libs => "libs"
      | .beside => ""⟩
    some ((words.dropLast.foldl (fun p word => p.join ⟨word⟩) start).join ⟨last ++ "." ++ fileExtension⟩)

/-- The files that are tried, in this order: beside the loading file, then for libraries under the common root. -/
def moduleCandidates (name : String) (kind : LoadKind) (base root : Path) : List Path :=
  match modulePath? name kind, kind with
  | none, _ => []
  | some path, .libs => [base.join path, root.join path]
  | some path, .beside => [base.join path]

end ScriptMachine
