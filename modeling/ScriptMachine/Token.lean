import ScriptMachine.Number.FloatText
import ScriptMachine.Source
import ScriptMachine.Text.Literal

/-! Keywords, symbols, tokens, and tokens with their place in a text. -/

namespace ScriptMachine

inductive Keyword where
  | let_ | and_ | or_ | not_ | if_ | elif | else_ | for_ | to_ | do_ | step | while_ | defun | done
  | return_ | continue_ | break_ | load | in_ | as_ | namespace_ | using_ | parent | async | await | del
deriving DecidableEq, Repr

namespace Keyword

def all : List Keyword :=
  [let_, and_, or_, not_, if_, elif, else_, for_, to_, do_, step, while_, defun, done, return_, continue_,
    break_, load, in_, as_, namespace_, using_, parent, async, await, del]

def text : Keyword → String
  | let_ => "let"
  | and_ => "and"
  | or_ => "or"
  | not_ => "not"
  | if_ => "if"
  | elif => "elif"
  | else_ => "else"
  | for_ => "for"
  | to_ => "to"
  | do_ => "do"
  | step => "step"
  | while_ => "while"
  | defun => "defun"
  | done => "done"
  | return_ => "return"
  | continue_ => "continue"
  | break_ => "break"
  | load => "load"
  | in_ => "in"
  | as_ => "as"
  | namespace_ => "namespace"
  | using_ => "using"
  | parent => "parent"
  | async => "async"
  | await => "await"
  | del => "del"

def ofText? (word : String) : Option Keyword := all.find? (·.text == word)

theorem ofText?_text (k : Keyword) : ofText? k.text = some k := by
  cases k <;> rfl

def kindName : Keyword → String
  | let_ => "Let"
  | and_ => "And"
  | or_ => "Or"
  | not_ => "Not"
  | if_ => "If"
  | elif => "Elif"
  | else_ => "Else"
  | for_ => "For"
  | to_ => "To"
  | do_ => "Do"
  | step => "Step"
  | while_ => "While"
  | defun => "Defun"
  | done => "Done"
  | return_ => "Return"
  | continue_ => "Continue"
  | break_ => "Break"
  | load => "Load"
  | in_ => "In"
  | as_ => "As"
  | namespace_ => "Namespace"
  | using_ => "Using"
  | parent => "Parent"
  | async => "Async"
  | await => "Await"
  | del => "Del"

end Keyword

inductive Symbol where
  | plus | minus | star | slash | doubleSlash | percent | caret | dollar | dot
  | assign | equal | notEqual | less | greater | lessEqual | greaterEqual
  | leftParen | rightParen | leftSquare | rightSquare | leftBrace | rightBrace
  | comma | colon | arrow | at_ | doubleStar
deriving DecidableEq, Repr

namespace Symbol

def text : Symbol → String
  | plus => "+"
  | minus => "-"
  | star => "*"
  | slash => "/"
  | doubleSlash => "//"
  | percent => "%"
  | caret => "^"
  | dollar => "$"
  | dot => "."
  | assign => "="
  | equal => "=="
  | notEqual => "!="
  | less => "<"
  | greater => ">"
  | lessEqual => "<="
  | greaterEqual => ">="
  | leftParen => "("
  | rightParen => ")"
  | leftSquare => "["
  | rightSquare => "]"
  | leftBrace => "\x7b"
  | rightBrace => "\x7d"
  | comma => ","
  | colon => ":"
  | arrow => "->"
  | at_ => "@"
  | doubleStar => "**"

def kindName : Symbol → String
  | plus => "Plus"
  | minus => "Minus"
  | star => "Mul"
  | slash => "Div"
  | doubleSlash => "FloorDiv"
  | percent => "Mod"
  | caret => "Pow"
  | dollar => "Dollar"
  | dot => "Dot"
  | assign => "Eq"
  | equal => "EqEq"
  | notEqual => "NotEq"
  | less => "Lt"
  | greater => "Gt"
  | lessEqual => "LtEq"
  | greaterEqual => "GtEq"
  | leftParen => "LParen"
  | rightParen => "RParen"
  | leftSquare => "LSquare"
  | rightSquare => "RSquare"
  | leftBrace => "LBrace"
  | rightBrace => "RBrace"
  | comma => "Comma"
  | colon => "Colon"
  | arrow => "Arrow"
  | at_ => "At"
  | doubleStar => "DoubleStar"

def augmentable : Symbol → Bool
  | plus | minus | star | slash | doubleSlash | percent | caret => true
  | _ => false

def closer? : Symbol → Option Symbol
  | leftParen => some rightParen
  | leftSquare => some rightSquare
  | leftBrace => some rightBrace
  | _ => none

def isCloser : Symbol → Bool
  | rightParen | rightSquare | rightBrace => true
  | _ => false

end Symbol

inductive Token where
  | ident (name : String)
  | int (value : Nat)
  | float (value : Float)
  | str (value : String)
  | symbol (s : Symbol)
  | keyword (k : Keyword)
  | newline
  | eof

namespace Token

def isSymbol (s : Symbol) : Token → Bool
  | symbol t => t == s
  | _ => false

def isKeyword (k : Keyword) : Token → Bool
  | keyword l => l == k
  | _ => false

def isNewline : Token → Bool
  | newline => true
  | _ => false

def isEof : Token → Bool
  | eof => true
  | _ => false

def isReserved : Token → Bool
  | keyword _ => true
  | _ => false

def augmentable : Token → Bool
  | symbol s => s.augmentable
  | _ => false

def text : Token → String
  | ident name => name
  | int value => toString value
  | float value => Number.FloatFormat.listing.text value
  | str value => Text.stringLiteral value
  | symbol s => s.text
  | keyword k => k.text
  | newline => "NEWLINE"
  | eof => "EOF"

def kindName : Token → String
  | ident _ => "Ident"
  | int _ => "Int"
  | float _ => "Float"
  | str _ => "Str"
  | symbol s => s.kindName
  | keyword k => k.kindName
  | newline => "Newline"
  | eof => "Eof"

def listing : Token → String
  | ident name => s!"Ident({Text.stringLiteral name})"
  | int value => s!"Int({value})"
  | float value => s!"Float({Number.FloatFormat.listing.text value})"
  | str value => s!"Str({Text.stringLiteral value})"
  | t => t.kindName

theorem eq_of_isSymbol {t : Token} {s : Symbol} (h : t.isSymbol s = true) : t = .symbol s := by
  cases t with
  | symbol u => simpa [isSymbol] using h
  | _ => simp [isSymbol] at h

theorem eq_of_isKeyword {t : Token} {k : Keyword} (h : t.isKeyword k = true) : t = .keyword k := by
  cases t with
  | keyword l => simpa [isKeyword] using h
  | _ => simp [isKeyword] at h

end Token

structure Lexeme where
  token : Token
  span : Span
  augmented : Bool := false

end ScriptMachine
