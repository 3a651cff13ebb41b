/-! Texts in double quotes, as programs spell them: a backslash, a quote and the three control
characters with a letter of their own are escaped, and all else stands for itself. -/

namespace ScriptMachine.Text

def escapeChar : Char → List Char
  | '\\' => ['\\', '\\']
  | '"' => ['\\', '"']
  | '\n' => ['\\', 'n']
  | '\t' => ['\\', 't']
  | '\r' => ['\\', 'r']
  | c => [c]

def unescapeChar : Char → Char
  | 'n' => '\n'
  | 't' => '\t'
  | 'r' => '\r'
  | c => c

def quoteChars (cs : List Char) : List Char := '"' :: (cs.flatMap escapeChar ++ ['"'])

def quote (s : String) : String := String.ofList (quoteChars s.toList)

end ScriptMachine.Text
