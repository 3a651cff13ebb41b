import ScriptMachine.Token

/-! Syntax trees of programs. Every node knows the span it was read from. -/

namespace ScriptMachine

inductive BinaryOp where
  | add | sub | mul | div | floorDiv | mod | pow | index
  | eq | ne | lt | gt | le | ge | and_ | or_
deriving DecidableEq, Repr

namespace BinaryOp

def ofToken? : Token → Option BinaryOp
  | .symbol .plus => some add
  | .symbol .minus => some sub
  | .symbol .star => some mul
  | .symbol .slash => some div
  | .symbol .doubleSlash => some floorDiv
  | .symbol .percent => some mod
  | .symbol .caret => some pow
  | .symbol .dollar => some index
  | .symbol .equal => some eq
  | .symbol .notEqual => some ne
  | .symbol .less => some lt
  | .symbol .greater => some gt
  | .symbol .lessEqual => some le
  | .symbol .greaterEqual => some ge
  | .keyword .and_ => some and_
  | .keyword .or_ => some or_
  | _ => none

def token : BinaryOp → Token
  | add => .symbol .plus
  | sub => .symbol .minus
  | mul => .symbol .star
  | div => .symbol .slash
  | floorDiv => .symbol .doubleSlash
  | mod => .symbol .percent
  | pow => .symbol .caret
  | index => .symbol .dollar
  | eq => .symbol .equal
  | ne => .symbol .notEqual
  | lt => .symbol .less
  | gt => .symbol .greater
  | le => .symbol .lessEqual
  | ge => .symbol .greaterEqual
  | and_ => .keyword .and_
  | or_ => .keyword .or_

theorem ofToken?_token (op : BinaryOp) : ofToken? op.token = some op := by
  cases op <;> rfl

def symbol (op : BinaryOp) : String := op.token.text

def all : List BinaryOp := [add, sub, mul, div, floorDiv, mod, pow, index, eq, ne, lt, gt, le, ge, and_, or_]

def ofSymbol? (text : String) : Option BinaryOp := all.find? (·.symbol == text)

end BinaryOp

inductive UnaryOp where
  | plus | minus | not_
deriving DecidableEq, Repr

inductive LoadKind where
  | libs | beside
deriving DecidableEq, Repr

mutual

inductive Node where
  | int (value : Nat) (span : Span)
  | float (value : Float) (span : Span)
  | str (value : String) (span : Span)
  | list (elements : List Node) (span : Span)
  | map (entries : List (Node × Node)) (span : Span)
  | block (statements : List Node) (span : Span)
  | ident (name : String) (span : Span)
  | assign (name : String) (value : Node) (span : Span)
  | multiAssign (names : List String) (value : Node) (span : Span)
  | alias_ (name newName : String) (span : Span)
  | indexAssign (target index value : Node) (span : Span)
  | del (names : List String) (span : Span)
  | binary (op : BinaryOp) (left right : Node) (span : Span)
  | unary (op : UnaryOp) (operand : Node) (span : Span)
  | branch (cases_ : List (Node × Node)) (otherwise : Option Node) (multiline : Bool) (span : Span)
  | forRange (var : String) (start stop : Node) (step : Option Node) (body : Node) (multiline : Bool) (span : Span)
  | forIn (vars : List String) (iterable body : Node) (multiline : Bool) (span : Span)
  | while_ (condition body : Node) (multiline : Bool) (span : Span)
  | function (name : Option String) (params : List Param) (body : Node) (autoReturn isAsync : Bool)
      (decorators : List Node) (span : Span)
  | call (callee : Node) (args : List Arg) (span : Span)
  | member (object : Node) (name : String) (span : Span)
  | await (value : Node) (span : Span)
  | return_ (value : Option Node) (span : Span)
  | continue_ (span : Span)
  | break_ (span : Span)
  | load (path : String) (kind : LoadKind) (span : Span)
  | namespace_ (name : String) (body : List Node) (span : Span)
  | using_ (names : List String) (parent : Bool) (span : Span)

inductive Param where
  | required (name : String)
  | optional (name : String) (default : Node)
  | rest (name : String)
  | keywords (name : String)

inductive Arg where
  | positional (value : Node)
  | keyword (name : String) (value : Node)
  | spread (value : Node)
  | spreadKeywords (value : Node)

end

def Param.name : Param → String
  | required name | optional name _ | rest name | keywords name => name

namespace Node

def span : Node → Span
  | int _ s | float _ s | str _ s | list _ s | map _ s | block _ s | ident _ s | assign _ _ s
  | multiAssign _ _ s | alias_ _ _ s | indexAssign _ _ _ s | del _ s | binary _ _ _ s | unary _ _ s
  | branch _ _ _ s | forRange _ _ _ _ _ _ s | forIn _ _ _ _ s | while_ _ _ _ s | function _ _ _ _ _ _ s
  | call _ _ s | member _ _ s | await _ s | return_ _ s | continue_ s | break_ s | load _ _ s
  | namespace_ _ _ s | using_ _ _ s => s

def boundNames : Node → List String
  | assign name _ _ | namespace_ name _ _ => [name]
  | alias_ _ newName _ => [newName]
  | multiAssign names _ _ => names
  | function (some name) _ _ _ _ _ _ => [name]
  | _ => []

end Node

structure Module where
  statements : List Node
  span : Span

end ScriptMachine
