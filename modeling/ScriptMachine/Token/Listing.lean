import ScriptMachine.Token.Stream

/-! Listings for people: one token a line, and the state in which the scanning of a text starts. -/

namespace ScriptMachine

def listTokens (line : String) : List String :=
  ((fragmentTokens line).takeWhile (!·.token.isEof)).map fun l => s!"[{l.span.text}] {l.token.listing}"

def optionalChar : Option Char → String
  | some c => s!"Some({Text.charLiteral c})"
  | none => "None"

def scanStart (text : String) : String :=
  let cs := text.toList
  let next := byteSize (cs.take 1)
  s!"Lexer \x7b\n\tposition: 0,\n\tnext_position: {next},\n\tch: {optionalChar cs.head?}, next_ch: " ++
    s!"{optionalChar (cs.drop 1).head?},\n\topen brackets: 0\n\x7d"

end ScriptMachine
