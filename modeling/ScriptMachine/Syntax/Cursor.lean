import ScriptMachine.Syntax.Fault

namespace ScriptMachine

structure Cursor where
  behind : Option Lexeme
  current : Lexeme
  ahead : List Lexeme

namespace Cursor

def token (c : Cursor) : Token := c.current.token

def here (c : Cursor) : Span := c.current.span

/-- The end mark is never left behind. -/
def step (c : Cursor) : Cursor :=
  match c.ahead with
  | [] => c
  | next :: rest => ⟨some c.current, next, rest⟩

def next (c : Cursor) : Lexeme := c.ahead.headD c.current

def previousEnd (c : Cursor) : Nat :=
  match c.behind with
  | some l => l.span.stop
  | none => c.current.span.start

def spanFrom (c : Cursor) (start : Span) : Span := ⟨start.start, max c.previousEnd start.stop⟩

def skipNewlinesFrom (behind : Option Lexeme) (current : Lexeme) : List Lexeme → Cursor × Nat
  | [] => (⟨behind, current, []⟩, 0)
  | next :: rest =>
    if current.token.isNewline then
      let (c, n) := skipNewlinesFrom (some current) next rest
      (c, n + 1)
    else (⟨behind, current, next :: rest⟩, 0)

def skipNewlines (c : Cursor) : Cursor × Nat := skipNewlinesFrom c.behind c.current c.ahead

def left (c : Cursor) : Nat := c.ahead.length

def ofLexemes (lexemes : List Lexeme) : Cursor :=
  let closed := match lexemes.getLast? with
    | some ⟨.eof, _, _⟩ => lexemes
    | some l => lexemes ++ [⟨.eof, Span.point l.span.stop, false⟩]
    | none => []
  match closed with
  | [] => ⟨none, ⟨.eof, Span.point 0, false⟩, []⟩
  | l :: rest => ⟨none, l, rest⟩

theorem left_step (c : Cursor) : c.step.left = c.left - 1 := by
  cases c with
  | mk behind current ahead => cases ahead <;> simp [step, left]

theorem left_skipNewlinesFrom (behind : Option Lexeme) (current : Lexeme) (ahead : List Lexeme) :
    (skipNewlinesFrom behind current ahead).1.left + (skipNewlinesFrom behind current ahead).2 =
      ahead.length := by
  induction ahead generalizing behind current with
  | nil => simp [skipNewlinesFrom, left]
  | cons next rest ih =>
    unfold skipNewlinesFrom
    split
    · have h := ih (some current) next
      simp only [List.length_cons]
      omega
    · simp [left]

theorem left_skipNewlines (c : Cursor) : c.skipNewlines.1.left + c.skipNewlines.2 = c.left :=
  left_skipNewlinesFrom c.behind c.current c.ahead

end Cursor

inductive Parsed (α : Type) where
  | ok (value : α) (after : Cursor)
  | fail (fault : SyntaxFault) (after : Cursor)

def Reader (α : Type) := Cursor → Parsed α

namespace Reader

variable {α β : Type}

def bind (r : Reader α) (f : α → Reader β) : Reader β := fun c =>
  match r c with
  | .ok a after => f a after
  | .fail fault after => .fail fault after

instance : Monad Reader where
  pure a := fun c => .ok a c
  bind := bind

theorem pure_apply (a : α) (c : Cursor) : (pure a : Reader α) c = .ok a c := rfl

theorem bind_apply (r : Reader α) (f : α → Reader β) (c : Cursor) :
    (r >>= f) c = match r c with
      | .ok a after => f a after
      | .fail fault after => .fail fault after := rfl

def cursor : Reader Cursor := fun c => .ok c c

def token : Reader Token := fun c => .ok c.token c

def here : Reader Span := fun c => .ok c.here c

def step : Reader Unit := fun c => .ok () c.step

def resume (saved : Cursor) : Reader Unit := fun _ => .ok () saved

def spanFrom (start : Span) : Reader Span := fun c => .ok (c.spanFrom start) c

def skipNewlines : Reader Nat := fun c => .ok c.skipNewlines.2 c.skipNewlines.1

def failAt (cause : SyntaxCause) (span : Span) : Reader α := fun c => .fail ⟨cause, span⟩ c

def failHere (cause : SyntaxCause) : Reader α := fun c => .fail ⟨cause, c.here⟩ c

def unexpected (wanted : List String) : Reader α := fun c => .fail ⟨.unexpected c.token wanted, c.here⟩ c

def atSymbol (s : Symbol) : Reader Bool := fun c => .ok (c.token.isSymbol s) c

def atKeyword (k : Keyword) : Reader Bool := fun c => .ok (c.token.isKeyword k) c

def expectSymbol (s : Symbol) : Reader Unit := do
  if ← atSymbol s then step else unexpected [s!"'{s.text}'"]

def expectKeyword (k : Keyword) : Reader Unit := do
  if ← atKeyword k then step else unexpected [s!"'{k.text}'"]

def ident : Reader String := do
  match ← token with
  | .ident name =>
    step
    pure name
  | _ => failHere .expectedIdent

/-- A failure at the first lexeme is handed to the caller; one after progress stands. -/
def attempt (r : Reader α) : Reader (Except SyntaxFault α) := fun c =>
  match r c with
  | .ok a after => .ok (.ok a) after
  | .fail fault after => if after.left = c.left then .ok (.error fault) after else .fail fault after

/-- Items up to a closing symbol, each followed by a comma or by the symbol. `rounds` bounds their number. -/
def items (closer : Symbol) (item : Reader α) : (rounds : Nat) → Reader (List α)
  | 0 => unexpected []
  | rounds + 1 => do
    if ← atSymbol closer then
      step
      return []
    let first ← item
    if ← atSymbol .comma then
      step
      let rest ← items closer item rounds
      return first :: rest
    else
      expectSymbol closer
      return [first]

def moreNames : (rounds : Nat) → Reader (List String)
  | 0 => unexpected []
  | rounds + 1 => do
    if ← atSymbol .comma then
      step
      let name ← ident
      let rest ← moreNames rounds
      return name :: rest
    else
      return []

def names (rounds : Nat) : Reader (List String) := do
  let first ← ident
  let rest ← moreNames rounds
  return first :: rest

end Reader

end ScriptMachine
