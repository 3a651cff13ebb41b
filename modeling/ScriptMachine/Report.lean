import ScriptMachine.Report.Excerpt
import ScriptMachine.Report.Traceback
import ScriptMachine.Syntax.Fault

namespace ScriptMachine

inductive ProgramError where
  | invalid (source : Source) (fault : ProgramFault)
  | failed (failure : Failure)
  | unreadable (path : String) (reason : FileFault)
  | empty (name : String)

namespace ProgramError

def text : ProgramError → String
  | invalid _ (.lexical _) => "failed to tokenize source code"
  | invalid _ (.syntactic _) => "failed to parse source code"
  | failed failure => failure.text
  | unreadable _ _ => "IO operation failed"
  | empty _ => "the file is empty or only contains comments"

end ProgramError

structure Report where
  title : String
  place : Option (Source × Span × String)
  notes : List String

namespace Report

def header (r : Report) : Styled := [⟨.title, "error"⟩, ⟨.message, ": " ++ r.title⟩, .plain "\n"]

def note (numberWidth : Nat) (text : String) : Styled :=
  let pad := Chunk.plain (Excerpt.padLeft numberWidth "" ++ " ")
  match Text.lines text.toList with
  | [] => []
  | first :: rest =>
    [pad, .border "=", .plain (" " ++ String.ofList first ++ "\n")] ++
      rest.flatMap fun line => [pad, .plain ("  " ++ String.ofList line ++ "\n")]

def styled (r : Report) : Styled :=
  let notes := r.notes.filter (!·.isEmpty)
  match r.place with
  | none => r.header ++ notes.flatMap (note 0) ++ [.plain "\n"]
  | some (source, span, message) =>
    let span := span.clamp source.text.utf8ByteSize
    let e := Excerpt.ofSpan source span message
    let (line, column) := source.lineCol span.start
    r.header ++ [e.gutter, .border "┌─", .plain s!" {source.name}:{line}:{column}\n"] ++ e.emptyLine ++ e.body ++
      (if notes.isEmpty then [] else e.emptyLine) ++ notes.flatMap (note e.numberWidth) ++ [.plain "\n"]

end Report

namespace ProgramError

def report : ProgramError → Report
  | invalid source fault => ⟨fault.kindName, some (source, fault.span, fault.message), fault.notes⟩
  | failed failure =>
    ⟨failure.text, failure.sites.getLast?.map fun s => (s.source, s.span, ""), []⟩
  | unreadable path reason => ⟨"Standard IO error", none, [s!"{path}: {reason.className}"]⟩
  | empty name => ⟨"The file is empty or only contains comments", none, [name]⟩

def styled (e : ProgramError) : Styled :=
  (match e with
    | failed failure => [.plain (failure.traceback ++ "\n")]
    | _ => []) ++ e.report.styled ++ [.plain "\n"]

def pretty (e : ProgramError) : String := Styled.render false e.styled

end ProgramError

end ScriptMachine
