import ScriptMachine.Proofs.Spelling

/-! Trees whose text can be read back. Only operations stand in parentheses when they are printed, so whether
a compound form can be read back depends on what it stands in: line breaks count for nothing inside brackets,
and an operator, a comma or an `else` after a form must not be taken for a part of it. -/

namespace ScriptMachine

def isName (name : String) : Bool :=
  match name.toList with
  | [] => false
  | c :: cs => Piece.isNameStart c && cs.all Piece.isNameChar && (Keyword.ofText? name).isNone

/-- A finite number without a sign whose digits are read back as it. -/
def isLiteral (x : Float) : Prop :=
  (∃ significand exponent, Number.Binary64.ofFloat x = .finite false significand exponent) ∧
    Number.readFloat? (Number.FloatFormat.source.text x).toList = some x

namespace Node

def isLet : Node → Bool
  | assign .. | multiAssign .. | alias_ .. => true
  | _ => false

def isClosed : Node → Bool
  | branch _ _ multiline _ | forRange _ _ _ _ _ multiline _ | forIn _ _ _ multiline _ | while_ _ _ multiline _ =>
    multiline
  | function _ _ _ autoReturn _ _ _ => !autoReturn
  | namespace_ .. => true
  | _ => false

end Node

namespace Param

def default? : Param → Option Node
  | optional _ value => some value
  | _ => none

end Param

namespace Arg

def value : Arg → Node
  | positional value | keyword _ value | spread value | spreadKeywords value => value

def isProper : Arg → Bool
  | positional value => !value.isLet
  | keyword name _ => isName name
  | _ => true

end Arg

def paramsFit (params : List Param) : Bool :=
  (Productions.paramFault? {} (params.map fun p => (p, Span.point 0))).isNone

inductive Follow where
  | finish
  | clause
  | separator
deriving DecidableEq

def Follow.ofBody (after : Follow) (multiline : Bool) : Follow := if multiline then .finish else after

inductive Role where
  | primary
  | operand
  | expr
  | statement
  | body (multiline : Bool)
deriving DecidableEq

inductive Legible : Role → (inside : Bool) → Follow → Node → Prop where
  | int {b f value span} : value < Number.wordBound → Legible .primary b f (.int value span)
  | float {b f value span} : isLiteral value → Legible .primary b f (.float value span)
  | str {b f value span} : Legible .primary b f (.str value span)
  | ident {b f name span} : isName name → Legible .primary b f (.ident name span)
  | list {b f elements span} : (∀ e ∈ elements, Legible .expr true .separator e) →
      Legible .primary b f (.list elements span)
  | map {b f entries span} : (∀ e ∈ entries, Legible .expr true .separator e.1) →
      (∀ e ∈ entries, Legible .expr true .separator e.2) → Legible .primary b f (.map entries span)
  | binary {b f op left right span} : Legible .primary true .finish left → Legible .operand true .finish right →
      Legible .primary b f (.binary op left right span)
  | unary {b f op operand span} : Legible .operand true .finish operand →
      Legible .primary b f (.unary op operand span)
  | await {b f value span} : Legible .operand true .finish value → Legible .primary b f (.await value span)
  | call {b f callee args span} : Legible .primary b f callee → (∀ a ∈ args, a.isProper) →
      (∀ a ∈ args, Legible .expr true .separator a.value) → Legible .primary b f (.call callee args span)
  | member {b f object name span} : Legible .primary b f object → isName name →
      Legible .primary b f (.member object name span)
  | closed {b f n} : n.isClosed → Legible .operand b .finish n → Legible .primary b f n
  | operand {b f n} : Legible .primary b f n → Legible .operand b f n
  | assign {b f name value span} : isName name → Legible .expr b f value →
      Legible .operand b f (.assign name value span)
  | multiAssign {b f names value span} : 2 ≤ names.length → (∀ name ∈ names, isName name) → Legible .expr b f value →
      Legible .operand b f (.multiAssign names value span)
  | alias_ {b f name newName span} : isName name → isName newName → Legible .operand b f (.alias_ name newName span)
  | load {b f path kind span} : Productions.loadKind? path = some kind → Legible .operand b f (.load path kind span)
  | del {b f names span} : f ≠ .separator → names ≠ [] → (∀ name ∈ names, isName name) →
      Legible .operand b f (.del names span)
  | using_ {b f names parent span} : f ≠ .separator → names ≠ [] → (∀ name ∈ names, isName name) →
      Legible .operand b f (.using_ names parent span)
  | branchElse {b f cases_ last multiline span} : cases_ ≠ [] →
      (∀ c ∈ cases_, Legible .expr b .separator c.1) → (∀ c ∈ cases_, Legible (.body multiline) b .clause c.2) →
      Legible (.body multiline) b (f.ofBody multiline) last →
      Legible .operand b f (.branch cases_ (some last) multiline span)
  | branchOpen {b f cases_ condition body multiline span} : (multiline = false → f ≠ .clause) →
      (∀ c ∈ cases_, Legible .expr b .separator c.1) → (∀ c ∈ cases_, Legible (.body multiline) b .clause c.2) →
      Legible .expr b .separator condition → Legible (.body multiline) b (f.ofBody multiline) body →
      Legible .operand b f (.branch (cases_ ++ [(condition, body)]) none multiline span)
  | forRange {b f var start stop step body multiline span} : isName var →
      Legible .expr b .separator start → Legible .expr b .separator stop →
      (∀ s ∈ step, Legible .expr b .separator s) → Legible (.body multiline) b (f.ofBody multiline) body →
      Legible .operand b f (.forRange var start stop step body multiline span)
  | forIn {b f vars iterable body multiline span} : vars ≠ [] → (∀ name ∈ vars, isName name) →
      Legible .expr b .separator iterable → Legible (.body multiline) b (f.ofBody multiline) body →
      Legible .operand b f (.forIn vars iterable body multiline span)
  | while_ {b f condition body multiline span} : Legible .expr b .separator condition →
      Legible (.body multiline) b (f.ofBody multiline) body →
      Legible .operand b f (.while_ condition body multiline span)
  | arrow {b f name params body isAsync decorators span} : (∀ n ∈ name, isName n) →
      (∀ p ∈ params, isName p.name) → paramsFit params →
      (∀ p ∈ params, ∀ d ∈ p.default?, Legible .expr true .separator d) →
      (decorators ≠ [] → b = false) → (∀ d ∈ decorators, Legible .operand b .finish d) → Legible .expr b f body →
      Legible .operand b f (.function name params body true isAsync decorators span)
  | function {b f name params body isAsync decorators span} : (∀ n ∈ name, isName n) →
      (∀ p ∈ params, isName p.name) → paramsFit params →
      (∀ p ∈ params, ∀ d ∈ p.default?, Legible .expr true .separator d) →
      (decorators ≠ [] → b = false) → (∀ d ∈ decorators, Legible .operand b .finish d) →
      Legible (.body true) b .finish body →
      Legible .operand b f (.function name params body false isAsync decorators span)
  | namespace_ {f name body span} : isName name → (∀ s ∈ body, Legible .statement false .finish s) →
      Legible .operand false f (.namespace_ name body span)
  | expr {b f n} : Legible .operand b f n → Legible .expr b f n
  | indexAssign {b f target index value span} : Legible .primary true .finish target →
      Legible .operand true .finish index → Legible .expr b f value →
      Legible .expr b f (.indexAssign target index value span)
  | statement {b f n} : Legible .expr b f n → Legible .statement b f n
  | returnNone {b f span} : f ≠ .separator → Legible .statement b f (.return_ none span)
  | return_ {b f value span} : Legible .expr b f value → Legible .statement b f (.return_ (some value) span)
  | continue_ {b f span} : Legible .statement b f (.continue_ span)
  | break_ {b f span} : Legible .statement b f (.break_ span)
  | inline {b f n} : Legible .statement b f n → Legible (.body false) b f n
  | emptyBlock {f span} : Legible (.body true) false f (.block [] span)
  | block {f statements last span} : (∀ s ∈ statements, Legible .statement false .finish s) →
      Legible .statement false f last → Legible (.body true) false f (.block (statements ++ [last]) span)

def Token.opens : Token → Bool
  | .int _ | .float _ | .str _ | .ident _ => true
  | .symbol s => s ∈ [Symbol.leftParen, .leftSquare, .leftBrace, .at_]
  | .keyword k => k ∈ [Keyword.if_, .for_, .while_, .defun, .async, .namespace_, .let_, .load, .using_, .del, .return_,
      .continue_, .break_]
  | .newline | .eof => false

lemma Legible.opens {r : Role} {b : Bool} {f : Follow} {n : Node} (h : Legible r b f n) (hr : r ≠ .body true) :
    ∃ t ts, n.spelling = t :: ts ∧ t.opens = true := by
  induction h with
  | call hc ha hv ih _ | member ho hn ih =>
    obtain ⟨t, ts, hs, ht⟩ := ih (by simp)
    exact ⟨t, _, by rw [Node.spelling, hs]; rfl, ht⟩
  | closed _ _ ih | operand _ ih | expr _ ih | statement _ ih | inline _ ih => exact ih (by simp)
  | @branchElse b f cases_ last multiline span hne hc hb hl _ _ _ =>
    obtain ⟨⟨condition, body⟩, rest, rfl⟩ := List.exists_cons_of_ne_nil hne
    cases multiline <;> exact ⟨_, _, rfl, by decide⟩
  | @branchOpen b f cases_ condition body multiline span =>
    obtain - | ⟨⟨c, d⟩, rest⟩ := cases_ <;> cases multiline <;> exact ⟨_, _, rfl, by decide⟩
  | @forRange b f var start stop step body multiline span => cases step <;> exact ⟨_, _, rfl, by decide⟩
  | @arrow b f name params body isAsync decorators span | @function b f name params body isAsync decorators span =>
    obtain - | ⟨d, decorators⟩ := decorators <;> cases isAsync <;> exact ⟨_, _, rfl, by decide⟩
  | @using_ b f names parent span => cases parent <;> exact ⟨_, _, rfl, by decide⟩
  | emptyBlock | block => exact absurd rfl hr
  | _ => exact ⟨_, _, rfl, rfl⟩

end ScriptMachine
