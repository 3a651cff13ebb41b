import ScriptMachine.Number.Read
import ScriptMachine.Text.Quoted
import ScriptMachine.Token.Fault

/-! Cutting a text into pieces. Each piece says how many characters it covers, so that the pieces cover
the text one after the other: tokens, and gaps of blanks, comments and continued lines between them. -/

namespace ScriptMachine

inductive Piece where
  | gap
  | token (t : Token)
  | fault (cause : LexicalCause)

namespace Piece

def isGap (c : Char) : Bool := c == ' ' || c == '\t' || c == '\r' || c == '\x0c'

def isNameStart (c : Char) : Bool := c.isAlpha || c == '_'

def isNameChar (c : Char) : Bool := c.isAlphanum || c == '_'

def ofWord (word : String) : Token :=
  match Keyword.ofText? word with
  | some k => .keyword k
  | none => .ident word

def readContinuation : List Char → Piece × Nat
  | '\n' :: _ => (.gap, 1)
  | '\r' :: '\n' :: _ => (.gap, 2)
  | _ => (.fault .strayBackslash, 0)

def fractionDigits : List Char → List Char
  | '.' :: cs => cs.takeWhile Char.isDigit
  | _ => []

def readNumber (c : Char) (cs : List Char) : Piece × Nat :=
  let whole := c :: cs.takeWhile Char.isDigit
  let fraction := fractionDigits (cs.dropWhile Char.isDigit)
  if fraction.isEmpty then
    let n := Number.ofDigits whole
    (if n < Number.wordBound then .token (.int n) else .fault .integerTooLarge, whole.length - 1)
  else
    let x := Number.nearestDecimal false (Number.ofDigits (whole ++ fraction)) (-fraction.length)
    (.token (.float x), whole.length + fraction.length)

def prepend (content : List Char) (count : Nat) : Option (List Char × Nat) → Option (List Char × Nat)
  | some (rest, n) => some (content ++ rest, count + n)
  | none => none

def readQuoted (quoteMark : Char) : List Char → Option (List Char × Nat)
  | [] => none
  | '\\' :: c :: cs => prepend [Text.unescapeChar c] 2 (readQuoted quoteMark cs)
  | c :: cs => if c = quoteMark then some ([], 1) else prepend [c] 1 (readQuoted quoteMark cs)

def readTripleQuoted (quoteMark : Char) : List Char → Option (List Char × Nat)
  | [] => none
  | '\\' :: c :: cs => prepend [Text.unescapeChar c] 2 (readTripleQuoted quoteMark cs)
  | c :: d :: cs =>
    if c = quoteMark ∧ d = quoteMark then
      if cs.head? = some quoteMark then some ([], 3)
      else prepend [quoteMark, quoteMark] 2 (readTripleQuoted quoteMark cs)
    else prepend [c] 1 (readTripleQuoted quoteMark (d :: cs))
  | [_] => none

def readString (quoteMark : Char) (cs : List Char) : Piece × Nat :=
  if cs.take 2 = [quoteMark, quoteMark] then
    match readTripleQuoted quoteMark (cs.drop 2) with
    | some (content, n) => (.token (.str (String.ofList content)), n + 2)
    | none => (.fault (.unterminated quoteMark true), cs.length)
  else
    match readQuoted quoteMark cs with
    | some (content, n) => (.token (.str (String.ofList content)), n)
    | none => (.fault (.unterminated quoteMark false), cs.length)

def pairSymbol? : Char → Char → Option Symbol
  | '-', '>' => some .arrow
  | '*', '*' => some .doubleStar
  | '/', '/' => some .doubleSlash
  | '=', '=' => some .equal
  | '!', '=' => some .notEqual
  | '<', '=' => some .lessEqual
  | '>', '=' => some .greaterEqual
  | _, _ => none

def singleSymbol? : Char → Option Symbol
  | '+' => some .plus
  | '-' => some .minus
  | '*' => some .star
  | '/' => some .slash
  | '%' => some .percent
  | '^' => some .caret
  | '$' => some .dollar
  | '.' => some .dot
  | '=' => some .assign
  | '<' => some .less
  | '>' => some .greater
  | '(' => some .leftParen
  | ')' => some .rightParen
  | '[' => some .leftSquare
  | ']' => some .rightSquare
  | '\x7b' => some .leftBrace
  | '\x7d' => some .rightBrace
  | ',' => some .comma
  | ':' => some .colon
  | '@' => some .at_
  | _ => none

def readSymbol (c : Char) (cs : List Char) : Piece × Nat :=
  match cs.head?.bind (pairSymbol? c) with
  | some s => (.token (.symbol s), 1)
  | none =>
    match singleSymbol? c with
    | some s => (.token (.symbol s), 0)
    | none => (.fault (if c = '!' then .expectedAfter '=' '!' else .illegal c), 0)

def read (c : Char) (cs : List Char) : Piece × Nat :=
  if isGap c then (.gap, 0)
  else if c = '#' then (.gap, (cs.takeWhile (· ≠ '\n')).length)
  else if c = '\n' ∨ c = ';' then (.token .newline, 0)
  else if c = '\\' then readContinuation cs
  else if isNameStart c then
    let word := c :: cs.takeWhile isNameChar
    (.token (ofWord (String.ofList word)), word.length - 1)
  else if c.isDigit then readNumber c cs
  else if c = '"' ∨ c = '\'' then readString c cs
  else readSymbol c cs

end Piece

def scanFrom (offset : Nat) : List Char → List Lexeme × Option LexicalFault
  | [] => ([], none)
  | c :: cs =>
    let piece := (Piece.read c cs).1
    let count := (Piece.read c cs).2
    let stop := offset + byteSize (c :: cs.take count)
    match piece with
    | .gap => scanFrom stop (cs.drop count)
    | .token t =>
      let rest := scanFrom stop (cs.drop count)
      (⟨t, ⟨offset, stop⟩, false⟩ :: rest.1, rest.2)
    | .fault cause => ([], some ⟨cause, ⟨offset, stop⟩⟩)
termination_by cs => cs.length
decreasing_by all_goals simp only [List.length_drop, List.length_cons]; omega

end ScriptMachine
