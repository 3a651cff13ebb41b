import Mathlib
import ScriptMachine.Syntax.Parser
import ScriptMachine.Syntax.Printer

/-! Syntax trees without the places they were read from, and the tokens that the text of a tree is made of. -/

namespace ScriptMachine

mutual

def Node.unplaced : Node → Node
  | .int value _ => .int value (.point 0)
  | .float value _ => .float value (.point 0)
  | .str value _ => .str value (.point 0)
  | .list elements _ => .list (unplacedNodes elements) (.point 0)
  | .map entries _ => .map (unplacedPairs entries) (.point 0)
  | .block statements _ => .block (unplacedNodes statements) (.point 0)
  | .ident name _ => .ident name (.point 0)
  | .assign name value _ => .assign name value.unplaced (.point 0)
  | .multiAssign names value _ => .multiAssign names value.unplaced (.point 0)
  | .alias_ name newName _ => .alias_ name newName (.point 0)
  | .indexAssign target index value _ => .indexAssign target.unplaced index.unplaced value.unplaced (.point 0)
  | .del names _ => .del names (.point 0)
  | .binary op left right _ => .binary op left.unplaced right.unplaced (.point 0)
  | .unary op operand _ => .unary op operand.unplaced (.point 0)
  | .branch cases_ otherwise multiline _ =>
    .branch (unplacedPairs cases_) (unplacedOption otherwise) multiline (.point 0)
  | .forRange var start stop step body multiline _ =>
    .forRange var start.unplaced stop.unplaced (unplacedOption step) body.unplaced multiline (.point 0)
  | .forIn vars iterable body multiline _ => .forIn vars iterable.unplaced body.unplaced multiline (.point 0)
  | .while_ condition body multiline _ => .while_ condition.unplaced body.unplaced multiline (.point 0)
  | .function name params body autoReturn isAsync decorators _ =>
    .function name (unplacedParams params) body.unplaced autoReturn isAsync (unplacedNodes decorators) (.point 0)
  | .call callee args _ => .call callee.unplaced (unplacedArgs args) (.point 0)
  | .member object name _ => .member object.unplaced name (.point 0)
  | .await value _ => .await value.unplaced (.point 0)
  | .return_ value _ => .return_ (unplacedOption value) (.point 0)
  | .continue_ _ => .continue_ (.point 0)
  | .break_ _ => .break_ (.point 0)
  | .load path kind _ => .load path kind (.point 0)
  | .namespace_ name body _ => .namespace_ name (unplacedNodes body) (.point 0)
  | .using_ names parent _ => .using_ names parent (.point 0)

def unplacedNodes : List Node → List Node
  | [] => []
  | n :: rest => n.unplaced :: unplacedNodes rest

def unplacedPairs : List (Node × Node) → List (Node × Node)
  | [] => []
  | (a, b) :: rest => (a.unplaced, b.unplaced) :: unplacedPairs rest

def unplacedOption : Option Node → Option Node
  | none => none
  | some n => some n.unplaced

def unplacedParams : List Param → List Param
  | [] => []
  | p :: rest => p.unplaced :: unplacedParams rest

def Param.unplaced : Param → Param
  | .required name => .required name
  | .optional name value => .optional name value.unplaced
  | .rest name => .rest name
  | .keywords name => .keywords name

def unplacedArgs : List Arg → List Arg
  | [] => []
  | a :: rest => a.unplaced :: unplacedArgs rest

def Arg.unplaced : Arg → Arg
  | .positional value => .positional value.unplaced
  | .keyword name value => .keyword name value.unplaced
  | .spread value => .spread value.unplaced
  | .spreadKeywords value => .spreadKeywords value.unplaced

end

def joined (separator : Token) : List (List Token) → List Token
  | [] => []
  | [ts] => ts
  | ts :: us :: rest => ts ++ separator :: joined separator (us :: rest)

def nameSpelling (names : List String) : List Token := joined (.symbol .comma) (names.map fun name => [.ident name])

def UnaryOp.token : UnaryOp → Token
  | plus => .symbol .plus
  | minus => .symbol .minus
  | not_ => .keyword .not_

def bodyLinesSpelling (body : Node) (ts : List Token) : List Token :=
  if body.isEmptyBlock then [] else ts ++ [.newline]

def bodySpelling (body : Node) (ts : List Token) (multiline : Bool) : List Token :=
  if multiline then .newline :: (bodyLinesSpelling body ts ++ [.keyword .done]) else ts

mutual

def Node.spelling : Node → List Token
  | .int value _ => [.int value]
  | .float value _ => [.float value]
  | .str value _ => [.str value]
  | .list elements _ =>
    .symbol .leftSquare :: (joined (.symbol .comma) (nodeSpellings elements) ++ [.symbol .rightSquare])
  | .map entries _ =>
    .symbol .leftBrace :: (joined (.symbol .comma) (entrySpellings entries) ++ [.symbol .rightBrace])
  | .block statements _ => joined .newline (nodeSpellings statements)
  | .ident name _ => [.ident name]
  | .assign name value _ => .keyword .let_ :: .ident name :: .symbol .assign :: value.spelling
  | .multiAssign names value _ => .keyword .let_ :: (nameSpelling names ++ .symbol .assign :: value.spelling)
  | .alias_ name newName _ => [.keyword .let_, .ident name, .keyword .as_, .ident newName]
  | .indexAssign target index value _ =>
    .symbol .leftParen :: (target.spelling ++ .symbol .dollar ::
      (index.spelling ++ .symbol .rightParen :: .symbol .assign :: value.spelling))
  | .del names _ => .keyword .del :: nameSpelling names
  | .binary op left right _ =>
    .symbol .leftParen :: (left.spelling ++ op.token :: (right.spelling ++ [.symbol .rightParen]))
  | .unary op operand _ => .symbol .leftParen :: op.token :: (operand.spelling ++ [.symbol .rightParen])
  | .branch cases_ none true _ => caseLinesSpelling .if_ cases_ ++ [.keyword .done]
  | .branch cases_ (some body) true _ =>
    caseLinesSpelling .if_ cases_ ++
      .keyword .else_ :: .newline :: (bodyLinesSpelling body body.spelling ++ [.keyword .done])
  | .branch cases_ none false _ => caseSpelling .if_ cases_
  | .branch cases_ (some body) false _ => caseSpelling .if_ cases_ ++ .keyword .else_ :: body.spelling
  | .forRange var start stop none body multiline _ =>
    .keyword .for_ :: .ident var :: .symbol .assign :: (start.spelling ++ .keyword .to_ ::
      (stop.spelling ++ .keyword .do_ :: bodySpelling body body.spelling multiline))
  | .forRange var start stop (some step) body multiline _ =>
    .keyword .for_ :: .ident var :: .symbol .assign :: (start.spelling ++ .keyword .to_ ::
      (stop.spelling ++ .keyword .step ::
        (step.spelling ++ .keyword .do_ :: bodySpelling body body.spelling multiline)))
  | .forIn vars iterable body multiline _ =>
    .keyword .for_ :: (nameSpelling vars ++ .keyword .in_ ::
      (iterable.spelling ++ .keyword .do_ :: bodySpelling body body.spelling multiline))
  | .while_ condition body multiline _ =>
    .keyword .while_ :: (condition.spelling ++ .keyword .do_ :: bodySpelling body body.spelling multiline)
  | .function name params body autoReturn isAsync decorators _ =>
    decoratorSpelling decorators ++ ((if isAsync then [.keyword .async] else []) ++ .keyword .defun ::
      ((match name with
        | some name => [.ident name]
        | none => []) ++ .symbol .leftParen ::
            (joined (.symbol .comma) (paramSpellings params) ++ .symbol .rightParen ::
          (if autoReturn then .symbol .arrow :: body.spelling else bodySpelling body body.spelling true))))
  | .call callee args _ =>
    callee.spelling ++ .symbol .leftParen :: (joined (.symbol .comma) (argSpellings args) ++ [.symbol .rightParen])
  | .member object name _ => object.spelling ++ [.symbol .dot, .ident name]
  | .await value _ => .symbol .leftParen :: .keyword .await :: (value.spelling ++ [.symbol .rightParen])
  | .return_ (some value) _ => .keyword .return_ :: value.spelling
  | .return_ none _ => [.keyword .return_]
  | .continue_ _ => [.keyword .continue_]
  | .break_ _ => [.keyword .break_]
  | .load path _ _ => [.keyword .load, .str path]
  | .namespace_ name body _ =>
    .keyword .namespace_ :: .ident name :: .newline :: (statementSpelling body ++ [.keyword .done])
  | .using_ names true _ => .keyword .using_ :: .keyword .parent :: nameSpelling names
  | .using_ names false _ => .keyword .using_ :: nameSpelling names

def nodeSpellings : List Node → List (List Token)
  | [] => []
  | n :: rest => n.spelling :: nodeSpellings rest

def entrySpellings : List (Node × Node) → List (List Token)
  | [] => []
  | (key, value) :: rest => (key.spelling ++ .symbol .colon :: value.spelling) :: entrySpellings rest

def caseLinesSpelling (keyword : Keyword) : List (Node × Node) → List Token
  | [] => []
  | (condition, body) :: rest =>
    .keyword keyword :: (condition.spelling ++ .keyword .do_ :: .newline ::
      (bodyLinesSpelling body body.spelling ++ caseLinesSpelling .elif rest))

def caseSpelling (keyword : Keyword) : List (Node × Node) → List Token
  | [] => []
  | (condition, body) :: rest =>
    .keyword keyword :: (condition.spelling ++ .keyword .do_ :: (body.spelling ++ caseSpelling .elif rest))

def decoratorSpelling : List Node → List Token
  | [] => []
  | d :: rest => .symbol .at_ :: (d.spelling ++ .newline :: decoratorSpelling rest)

def statementSpelling : List Node → List Token
  | [] => []
  | s :: rest => s.spelling ++ .newline :: statementSpelling rest

def paramSpellings : List Param → List (List Token)
  | [] => []
  | p :: rest => p.spelling :: paramSpellings rest

def Param.spelling : Param → List Token
  | .required name => [.ident name]
  | .optional name value => .keyword .let_ :: .ident name :: .symbol .assign :: value.spelling
  | .rest name => [.symbol .star, .ident name]
  | .keywords name => [.symbol .doubleStar, .ident name]

def argSpellings : List Arg → List (List Token)
  | [] => []
  | a :: rest => a.spelling :: argSpellings rest

def Arg.spelling : Arg → List Token
  | .positional value => value.spelling
  | .keyword name value => .keyword .let_ :: .ident name :: .symbol .assign :: value.spelling
  | .spread value => .symbol .star :: value.spelling
  | .spreadKeywords value => .symbol .doubleStar :: value.spelling

end

lemma unplacedNodes_eq_map (nodes : List Node) : unplacedNodes nodes = nodes.map Node.unplaced := by
  induction nodes with
  | nil => rfl
  | cons n rest ih => simp [unplacedNodes, ih]

lemma unplacedPairs_eq_map (pairs : List (Node × Node)) :
    unplacedPairs pairs = pairs.map fun p => (p.1.unplaced, p.2.unplaced) := by
  induction pairs with
  | nil => rfl
  | cons p rest ih => simp [unplacedPairs, ih]

lemma unplacedParams_eq_map (params : List Param) : unplacedParams params = params.map Param.unplaced := by
  induction params with
  | nil => rfl
  | cons p rest ih => simp [unplacedParams, ih]

lemma nodeSpellings_eq_map (nodes : List Node) : nodeSpellings nodes = nodes.map Node.spelling := by
  induction nodes with
  | nil => rfl
  | cons n rest ih => simp [nodeSpellings, ih]

lemma entryTexts_eq_map (entries : List (Node × Node)) :
    entryTexts entries = entries.map fun e => e.1.text ++ ": " ++ e.2.text := by
  induction entries with
  | nil => rfl
  | cons e rest ih => simp [entryTexts, ih]

lemma entrySpellings_eq_map (entries : List (Node × Node)) :
    entrySpellings entries = entries.map fun e => e.1.spelling ++ .symbol .colon :: e.2.spelling := by
  induction entries with
  | nil => rfl
  | cons e rest ih => simp [entrySpellings, ih]

lemma paramTexts_eq_map (params : List Param) : paramTexts params = params.map Param.text := by
  induction params with
  | nil => rfl
  | cons p rest ih => simp [paramTexts, ih]

lemma paramSpellings_eq_map (params : List Param) : paramSpellings params = params.map Param.spelling := by
  induction params with
  | nil => rfl
  | cons p rest ih => simp [paramSpellings, ih]

lemma argTexts_eq_map (args : List Arg) : argTexts args = args.map Arg.text := by
  induction args with
  | nil => rfl
  | cons a rest ih => simp [argTexts, ih]

lemma argSpellings_eq_map (args : List Arg) : argSpellings args = args.map Arg.spelling := by
  induction args with
  | nil => rfl
  | cons a rest ih => simp [argSpellings, ih]

attribute [local simp] Node.unplaced unplacedNodes unplacedPairs unplacedOption unplacedParams Param.unplaced
  unplacedArgs Arg.unplaced

mutual

theorem Node.unplaced_unplaced (n : Node) : n.unplaced.unplaced = n.unplaced := by
  cases n <;> simp [Node.unplaced_unplaced, unplacedNodes_unplacedNodes, unplacedPairs_unplacedPairs,
    unplacedOption_unplacedOption, unplacedParams_unplacedParams, unplacedArgs_unplacedArgs]
termination_by structural n

theorem unplacedNodes_unplacedNodes (nodes : List Node) :
    unplacedNodes (unplacedNodes nodes) = unplacedNodes nodes := by
  cases nodes with
  | nil => rfl
  | cons n rest => simp [Node.unplaced_unplaced n, unplacedNodes_unplacedNodes rest]
termination_by structural nodes

theorem unplacedPairs_unplacedPairs (pairs : List (Node × Node)) :
    unplacedPairs (unplacedPairs pairs) = unplacedPairs pairs := by
  cases pairs with
  | nil => rfl
  | cons p rest =>
    simp [Node.unplaced_unplaced p.1, Node.unplaced_unplaced p.2, unplacedPairs_unplacedPairs rest]
termination_by structural pairs

theorem unplacedOption_unplacedOption (node : Option Node) :
    unplacedOption (unplacedOption node) = unplacedOption node := by
  cases node with
  | none => rfl
  | some n => simp [Node.unplaced_unplaced n]
termination_by structural node

theorem unplacedParams_unplacedParams (params : List Param) :
    unplacedParams (unplacedParams params) = unplacedParams params := by
  cases params with
  | nil => rfl
  | cons p rest => simp [Param.unplaced_unplaced p, unplacedParams_unplacedParams rest]
termination_by structural params

theorem Param.unplaced_unplaced (p : Param) : p.unplaced.unplaced = p.unplaced := by
  cases p <;> simp [Node.unplaced_unplaced]
termination_by structural p

theorem unplacedArgs_unplacedArgs (args : List Arg) : unplacedArgs (unplacedArgs args) = unplacedArgs args := by
  cases args with
  | nil => rfl
  | cons a rest => simp [Arg.unplaced_unplaced a, unplacedArgs_unplacedArgs rest]
termination_by structural args

theorem Arg.unplaced_unplaced (a : Arg) : a.unplaced.unplaced = a.unplaced := by
  cases a <;> simp [Node.unplaced_unplaced]
termination_by structural a

end

lemma Node.isEmptyBlock_unplaced (n : Node) : n.unplaced.isEmptyBlock = n.isEmptyBlock := by
  cases n with
  | block statements => cases statements <;> rfl
  | _ => rfl

attribute [local simp] Node.text nodeTexts decoratorLines statementLines entryTexts caseLines caseTexts paramTexts
  Param.text argTexts Arg.text bodyText bodyLines Node.isEmptyBlock_unplaced

mutual

theorem Node.text_unplaced (n : Node) : n.unplaced.text = n.text := by
  cases n with
  | unary op => cases op <;> simp [Node.text_unplaced]
  | using_ _ parent => cases parent <;> rfl
  | return_ value => cases value <;> simp [Node.text_unplaced]
  | forRange _ _ _ step => cases step <;> simp [Node.text_unplaced]
  | branch cases_ last multiline =>
    cases last <;> cases multiline <;> simp [Node.text_unplaced, pairTexts_unplaced cases_]
  | _ => simp [Node.text_unplaced, nodeTexts_unplaced, pairTexts_unplaced, paramTexts_unplaced, argTexts_unplaced]
termination_by structural n

theorem nodeTexts_unplaced (nodes : List Node) : nodeTexts (unplacedNodes nodes) = nodeTexts nodes ∧
    decoratorLines (unplacedNodes nodes) = decoratorLines nodes ∧
      statementLines (unplacedNodes nodes) = statementLines nodes := by
  cases nodes with
  | nil => exact ⟨rfl, rfl, rfl⟩
  | cons n rest => simp [Node.text_unplaced n, nodeTexts_unplaced rest]
termination_by structural nodes

theorem pairTexts_unplaced (pairs : List (Node × Node)) : entryTexts (unplacedPairs pairs) = entryTexts pairs ∧
    ∀ keyword, caseLines keyword (unplacedPairs pairs) = caseLines keyword pairs ∧
      caseTexts keyword (unplacedPairs pairs) = caseTexts keyword pairs := by
  cases pairs with
  | nil => exact ⟨rfl, fun _ => ⟨rfl, rfl⟩⟩
  | cons p rest => simp [Node.text_unplaced p.1, Node.text_unplaced p.2, pairTexts_unplaced rest]
termination_by structural pairs

theorem paramTexts_unplaced (params : List Param) : paramTexts (unplacedParams params) = paramTexts params := by
  cases params with
  | nil => rfl
  | cons p rest => simp [Param.text_unplaced p, paramTexts_unplaced rest]
termination_by structural params

theorem Param.text_unplaced (p : Param) : p.unplaced.text = p.text := by
  cases p <;> simp [Node.text_unplaced]
termination_by structural p

theorem argTexts_unplaced (args : List Arg) : argTexts (unplacedArgs args) = argTexts args := by
  cases args with
  | nil => rfl
  | cons a rest => simp [Arg.text_unplaced a, argTexts_unplaced rest]
termination_by structural args

theorem Arg.text_unplaced (a : Arg) : a.unplaced.text = a.text := by
  cases a <;> simp [Node.text_unplaced]
termination_by structural a

end

end ScriptMachine
