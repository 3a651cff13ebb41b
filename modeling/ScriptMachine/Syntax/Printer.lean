import ScriptMachine.Syntax
import ScriptMachine.Text.Quoted

/-! The canonical text of a syntax tree. Every operation stands in parentheses, so that reading the text
again builds the same tree. -/

namespace ScriptMachine

def commaList (items : List String) : String := ", ".intercalate items

def Node.isEmptyBlock : Node → Bool
  | .block [] _ => true
  | _ => false

def bodyLines (body : Node) (text : String) : String := if body.isEmptyBlock then "" else text ++ "\n"

def bodyText (body : Node) (text : String) (multiline : Bool) : String :=
  if multiline then "\n" ++ bodyLines body text ++ "done" else " " ++ text

mutual

def Node.text : Node → String
  | .int value _ => toString value
  | .float value _ => Number.FloatFormat.source.text value
  | .str value _ => Text.quote value
  | .list elements _ => "[" ++ commaList (nodeTexts elements) ++ "]"
  | .map entries _ => "\x7b" ++ commaList (entryTexts entries) ++ "\x7d"
  | .block statements _ => "\n".intercalate (nodeTexts statements)
  | .ident name _ => name
  | .assign name value _ => "let " ++ name ++ " = " ++ value.text
  | .multiAssign names value _ => "let " ++ commaList names ++ " = " ++ value.text
  | .alias_ name newName _ => "let " ++ name ++ " as " ++ newName
  | .indexAssign target index value _ => "(" ++ target.text ++ " $ " ++ index.text ++ ") = " ++ value.text
  | .del names _ => "del " ++ commaList names
  | .binary op left right _ => "(" ++ left.text ++ " " ++ op.symbol ++ " " ++ right.text ++ ")"
  | .unary .plus operand _ => "(+" ++ operand.text ++ ")"
  | .unary .minus operand _ => "(-" ++ operand.text ++ ")"
  | .unary .not_ operand _ => "(not " ++ operand.text ++ ")"
  | .branch cases_ none true _ => caseLines "if" cases_ ++ "done"
  | .branch cases_ (some body) true _ => caseLines "if" cases_ ++ "else\n" ++ bodyLines body body.text ++ "done"
  | .branch cases_ none false _ => " ".intercalate (caseTexts "if" cases_)
  | .branch cases_ (some body) false _ => " ".intercalate (caseTexts "if" cases_) ++ " else " ++ body.text
  | .forRange var start stop none body multiline _ =>
    "for " ++ var ++ " = " ++ start.text ++ " to " ++ stop.text ++ " do" ++ bodyText body body.text multiline
  | .forRange var start stop (some step) body multiline _ =>
    "for " ++ var ++ " = " ++ start.text ++ " to " ++ stop.text ++ " step " ++ step.text ++ " do" ++
      bodyText body body.text multiline
  | .forIn vars iterable body multiline _ =>
    "for " ++ commaList vars ++ " in " ++ iterable.text ++ " do" ++ bodyText body body.text multiline
  | .while_ condition body multiline _ =>
    "while " ++ condition.text ++ " do" ++ bodyText body body.text multiline
  | .function name params body autoReturn isAsync decorators _ =>
    decoratorLines decorators ++ (if isAsync then "async " else "") ++ "defun" ++
      (match name with
        | some name => " " ++ name
        | none => "") ++
      "(" ++ commaList (paramTexts params) ++ ")" ++
      (if autoReturn then " -> " ++ body.text else bodyText body body.text true)
  | .call callee args _ => callee.text ++ "(" ++ commaList (argTexts args) ++ ")"
  | .member object name _ => object.text ++ "." ++ name
  | .await value _ => "(await " ++ value.text ++ ")"
  | .return_ (some value) _ => "return " ++ value.text
  | .return_ none _ => "return"
  | .continue_ _ => "continue"
  | .break_ _ => "break"
  | .load path _ _ => "load " ++ Text.quote path
  | .namespace_ name body _ => "namespace " ++ name ++ "\n" ++ statementLines body ++ "done"
  | .using_ names true _ => "using parent " ++ commaList names
  | .using_ names false _ => "using " ++ commaList names

def nodeTexts : List Node → List String
  | [] => []
  | n :: rest => n.text :: nodeTexts rest

def entryTexts : List (Node × Node) → List String
  | [] => []
  | (key, value) :: rest => (key.text ++ ": " ++ value.text) :: entryTexts rest

def caseLines (keyword : String) : List (Node × Node) → String
  | [] => ""
  | (condition, body) :: rest =>
    keyword ++ " " ++ condition.text ++ " do\n" ++ bodyLines body body.text ++ caseLines "elif" rest

def caseTexts (keyword : String) : List (Node × Node) → List String
  | [] => []
  | (condition, body) :: rest => (keyword ++ " " ++ condition.text ++ " do " ++ body.text) :: caseTexts "elif" rest

def decoratorLines : List Node → String
  | [] => ""
  | d :: rest => "@" ++ d.text ++ "\n" ++ decoratorLines rest

def statementLines : List Node → String
  | [] => ""
  | s :: rest => s.text ++ "\n" ++ statementLines rest

def paramTexts : List Param → List String
  | [] => []
  | p :: rest => p.text :: paramTexts rest

def Param.text : Param → String
  | .required name => name
  | .optional name value => "let " ++ name ++ " = " ++ value.text
  | .rest name => "*" ++ name
  | .keywords name => "**" ++ name

def argTexts : List Arg → List String
  | [] => []
  | a :: rest => a.text :: argTexts rest

def Arg.text : Arg → String
  | .positional value => value.text
  | .keyword name value => "let " ++ name ++ " = " ++ value.text
  | .spread value => "*" ++ value.text
  | .spreadKeywords value => "**" ++ value.text

end

theorem nodeTexts_eq_map (nodes : List Node) : nodeTexts nodes = nodes.map Node.text := by
  induction nodes with
  | nil => rfl
  | cons n rest ih => simp [nodeTexts, ih]

def Module.text (m : Module) : String := "\n".intercalate (nodeTexts m.statements)

end ScriptMachine
