import ScriptMachine.Text.Unprinted

/-! Texts and characters as literals for a reader of token listings: quoted, with letters for the common
controls and a code in braces for every character that would not show. -/

namespace ScriptMachine.Text

def hexDigits (n : Nat) : List Char := Nat.toDigits 16 n

def codeEscape (c : Char) : List Char := ['\\', 'u', '\x7b'] ++ hexDigits c.toNat ++ ['\x7d']

def literalChar (quoteMark c : Char) : List Char :=
  match c with
  | '\x00' => ['\\', '0']
  | '\t' => ['\\', 't']
  | '\r' => ['\\', 'r']
  | '\n' => ['\\', 'n']
  | '\\' => ['\\', '\\']
  | c => if c = quoteMark then ['\\', c] else if isUnprinted c then codeEscape c else [c]

def stringLiteral (s : String) : String :=
  String.ofList ('"' :: (s.toList.flatMap (literalChar '"') ++ ['"']))

def charLiteral (c : Char) : String := String.ofList ('\'' :: (literalChar '\'' c ++ ['\'']))

end ScriptMachine.Text
