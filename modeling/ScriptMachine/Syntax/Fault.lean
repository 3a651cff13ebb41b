import ScriptMachine.Token.Fault

/-! Why tokens make up no program, and what the reader is told about it. -/

namespace ScriptMachine

inductive SyntaxCause where
  | expectedIdent
  | missing (what : String)
  | unexpected (found : Token) (wanted : List String)
  | trailing (token : Token)
  | mixedBodies (construct : String)
  | invalidPath (path : String)
  | requiredAfterDefault (name : String)
  | duplicateParameter (name : String)
  | duplicateCollector (mark : String)
  | invalidTarget

namespace SyntaxCause

def describe : Token → String
  | .int _ => "an int"
  | .float _ => "a float"
  | .str _ => "a string"
  | .ident _ => "an identifier"
  | .newline => "a newline"
  | .eof => "the end of the file"
  | .keyword k => s!"the keyword '{k.text}'"
  | .symbol s => s!"'{s.text}'"

def message : SyntaxCause → String
  | expectedIdent => "Expected identifier"
  | missing what => s!"Expected {what}"
  | unexpected _ wanted => "Expected " ++ ", ".intercalate wanted
  | trailing _ => "Token cannot appear after previous tokens"
  | mixedBodies construct => s!"Cannot mix inline and block bodies in one '{construct}' chain"
  | invalidPath path => s!"Invalid module path '{path}'"
  | requiredAfterDefault name => s!"Parameter '{name}' without a default follows a defaulted parameter"
  | duplicateParameter name => s!"Duplicate parameter '{name}'"
  | duplicateCollector mark => s!"A function can have only one '{mark}' parameter"
  | invalidTarget => "Invalid assignment target"

def notes : SyntaxCause → List String
  | unexpected found wanted =>
    s!"Found {describe found}, expected one of: " :: wanted.map fun w => s!"- {w}"
  | trailing token => [s!"'{token.text}' should start a new line"]
  | invalidPath _ => ["module paths must start with 'libs.' or 'local.'"]
  | invalidTarget => ["only names and 'collection $ key' can be assigned to"]
  | _ => []

end SyntaxCause

structure SyntaxFault where
  cause : SyntaxCause
  span : Span

inductive ProgramFault where
  | lexical (fault : LexicalFault)
  | syntactic (fault : SyntaxFault)

namespace ProgramFault

def span : ProgramFault → Span
  | lexical fault => fault.span
  | syntactic fault => fault.span

def kindName : ProgramFault → String
  | lexical fault => fault.cause.kindName
  | syntactic _ => "InvalidSyntaxError"

def message : ProgramFault → String
  | lexical fault => fault.cause.message
  | syntactic fault => fault.cause.message

def notes : ProgramFault → List String
  | lexical fault => fault.cause.notes
  | syntactic fault => fault.cause.notes

end ProgramFault

end ScriptMachine
