import ScriptMachine.Token.Window

namespace ScriptMachine

structure OpenBracket where
  closer : Symbol
  span : Span
  line : Nat
  column : Nat

def Token.endsStatement : Token → Bool
  | .newline | .keyword .do_ | .keyword .else_ | .symbol .arrow => true
  | _ => false

/-- The program so far, last token first, with a `let` in front of its last name if that name starts a
statement. -/
def insertLet : List Lexeme → List Lexeme
  | ⟨.ident name, span, a⟩ :: before =>
    match before with
    | [] => [⟨.ident name, span, a⟩, ⟨.keyword .let_, .point span.start, false⟩]
    | l :: _ =>
      if l.token.endsStatement then
        ⟨.ident name, span, a⟩ :: ⟨.keyword .let_, .point span.start, false⟩ :: before
      else ⟨.ident name, span, a⟩ :: before
  | program => program

def withLet (letInsertion : Bool) (program : List Lexeme) : List Lexeme :=
  if letInsertion then insertLet program else program

def closeBracket (found : Symbol) (span : Span) : List OpenBracket → Except LexicalFault (List OpenBracket)
  | [] => .error ⟨.unmatchedCloser found, span⟩
  | b :: brackets =>
    if b.closer = found then .ok brackets
    else .error ⟨.mismatchedCloser b.closer found b.line b.column, span⟩

def lastName? : List Lexeme → Option (String × Span)
  | ⟨.ident name, span, _⟩ :: _ => some (name, span)
  | _ => none

abbrev Arranged := List Lexeme × Except LexicalFault (List OpenBracket)

def arrange (letInsertion : Bool) (program : List Lexeme) (brackets : List OpenBracket) : List Sighting → Arranged
  | [] => (program, .ok brackets)
  | ⟨l, line, column⟩ :: rest =>
    match l.token with
    | .newline =>
      if brackets.isEmpty && !(program.head?.any (·.token.isNewline)) then
        arrange letInsertion (l :: program) brackets rest
      else arrange letInsertion program brackets rest
    | .symbol .assign => arrange letInsertion (l :: withLet letInsertion program) brackets rest
    | .symbol s =>
      match s.closer? with
      | some closer => arrange letInsertion (l :: program) (⟨closer, l.span, line, column⟩ :: brackets) rest
      | none =>
        if s.isCloser then
          match closeBracket s l.span brackets with
          | .ok brackets => arrange letInsertion (l :: program) brackets rest
          | .error fault => (program, .error fault)
        else
          match rest with
          | e :: rest' =>
            if s.augmentable && e.lexeme.token.isSymbol .assign && e.lexeme.span.start == l.span.stop then
              match lastName? program with
              | some (name, span) =>
                arrange letInsertion
                  (⟨.symbol s, l.span, true⟩ :: ⟨.ident name, span, false⟩ :: e.lexeme :: withLet letInsertion program)
                  brackets rest'
              | none => arrange letInsertion (l :: program) brackets (e :: rest')
            else arrange letInsertion (l :: program) brackets (e :: rest')
          | [] => (l :: program, .ok brackets)
    | _ => arrange letInsertion (l :: program) brackets rest

structure Tokenized where
  lexemes : List Lexeme
  fault : Option LexicalFault

def tokenizeChars (letInsertion : Bool) (cs : List Char) : Tokenized :=
  let scanned := (Window.atStart cs).scan
  let arranged := arrange letInsertion [] [] scanned.1
  let outcome : Except LexicalFault Nat := do
    let brackets ← arranged.2
    let stop ← scanned.2
    match brackets with
    | [] => return stop
    | b :: _ => throw ⟨.unclosed b.closer b.line b.column, ⟨b.span.start, stop⟩⟩
  let (stop, fault) := match outcome with
    | .ok stop => (stop, none)
    | .error fault => (fault.span.stop, some fault)
  ⟨(⟨.eof, .point stop, false⟩ :: arranged.1).reverse, fault⟩

def tokenize (text : String) : Tokenized := tokenizeChars true text.toList

def fragmentTokens (text : String) : List Lexeme := (tokenizeChars false text.toList).lexemes

end ScriptMachine
