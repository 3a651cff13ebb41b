namespace ScriptMachine

inductive Style where
  | plain
  | title
  | alert
  | message
  | border
  | mark
deriving DecidableEq, Repr

def resetCode : String := "\x1b[0m"

def Style.code : Style → String
  | plain => ""
  | title | alert => resetCode ++ "\x1b[1m\x1b[38;5;9m"
  | message => resetCode ++ "\x1b[1m"
  | border => resetCode ++ "\x1b[34m"
  | mark => resetCode ++ "\x1b[31m"

def Style.closing : Style → String
  | plain | title => ""
  | alert | message | border | mark => resetCode

structure Chunk where
  style : Style
  text : String

abbrev Styled := List Chunk

namespace Chunk

def plain (text : String) : Chunk := ⟨.plain, text⟩

def border (text : String) : Chunk := ⟨.border, text⟩

def mark (text : String) : Chunk := ⟨.mark, text⟩

def render (coloured : Bool) (p : Chunk) : String :=
  if coloured then p.style.code ++ p.text ++ p.style.closing else p.text

end Chunk

def Styled.render (coloured : Bool) (pieces : Styled) : String := String.join (pieces.map (Chunk.render coloured))

end ScriptMachine
