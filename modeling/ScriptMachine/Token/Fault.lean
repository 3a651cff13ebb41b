import ScriptMachine.Token

/-! Why a text cannot be cut into tokens, and what the reader is told about it. -/

namespace ScriptMachine

inductive LexicalCause where
  | illegal (c : Char)
  | strayBackslash
  | expectedAfter (expected after : Char)
  | unterminated (quoteMark : Char) (triple : Bool)
  | unmatchedCloser (found : Symbol)
  | mismatchedCloser (expected found : Symbol) (line column : Nat)
  | unclosed (expected : Symbol) (line column : Nat)
  | integerTooLarge
deriving DecidableEq, Repr

namespace LexicalCause

def kindName : LexicalCause → String
  | illegal _ | strayBackslash | integerTooLarge => "IllegalCharacterError"
  | _ => "ExpectedCharacterError"

def expectedCloser? : LexicalCause → Option Symbol
  | mismatchedCloser expected .. | unclosed expected .. => some expected
  | _ => none

def message : LexicalCause → String
  | illegal c => s!"'{c}'"
  | strayBackslash => "Stray '\\' character in program"
  | expectedAfter expected after => s!"'{expected}' (after '{after}')"
  | unterminated q true => s!"'{q}{q}{q}' (closing quotes for multiline string)"
  | unterminated q false => s!"'{q}' (closing quote for string)"
  | unmatchedCloser found => s!"'{found.text}' without matching opener"
  | mismatchedCloser expected found .. => s!"Expected '{expected.text}' but found '{found.text}'"
  | unclosed expected .. => s!"Expected '{expected.text}'"
  | integerTooLarge => "Integer literal is too large"

def notes : LexicalCause → List String
  | strayBackslash => ["a '\\' is only allowed right before a line break"]
  | mismatchedCloser _ _ line column | unclosed _ line column =>
    [s!"the bracket was opened at line {line}, column {column}"]
  | _ => []

end LexicalCause

structure LexicalFault where
  cause : LexicalCause
  span : Span
deriving DecidableEq, Repr

end ScriptMachine
