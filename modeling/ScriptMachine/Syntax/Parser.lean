import ScriptMachine.Syntax
import ScriptMachine.Syntax.Cursor
import ScriptMachine.Token.Stream

namespace ScriptMachine

inductive Precedence where
  | lowest | logic | comparison | sum | product | sign | index | power | call
deriving DecidableEq, Repr

namespace Precedence

def rank : Precedence → Nat
  | lowest => 0
  | logic => 1
  | comparison => 2
  | sum => 3
  | product => 4
  | sign => 5
  | index => 6
  | power => 7
  | call => 8

def ofToken : Token → Precedence
  | .keyword .and_ | .keyword .or_ => logic
  | .symbol .equal | .symbol .notEqual | .symbol .less | .symbol .greater
  | .symbol .lessEqual | .symbol .greaterEqual => comparison
  | .symbol .plus | .symbol .minus => sum
  | .symbol .star | .symbol .slash | .symbol .doubleSlash | .symbol .percent => product
  | .symbol .dollar => index
  | .symbol .caret => power
  | .symbol .leftParen | .symbol .dot => call
  | _ => lowest

def rightOf : BinaryOp → Precedence
  | .pow => index
  | op => ofToken op.token

end Precedence

structure StatementList where
  statements : List Node
  unmatched : Option SyntaxFault

structure Productions where
  rounds : Nat
  expr : Reader Node
  climb : Precedence → Reader Node
  statement : Reader Node
  statements : Reader StatementList

namespace Productions

open Reader

def expressionStart : List String :=
  ["int", "float", "string", "identifier", "'+'", "'-'", "'('", "'['", "'\x7b'",
    "'if'", "'for'", "'while'", "'defun'", "'not'"]

def assignedValue (g : Productions) (name : String) : Reader Node := do
  let c ← cursor
  let op := match c.token with
    | .ident word => if word = name ∧ c.next.augmented then BinaryOp.ofToken? c.next.token else none
    | _ => none
  match op with
  | none => g.expr
  | some op =>
    step
    step
    let _ ← skipNewlines
    let right ← g.expr
    return .binary op (.ident name c.here) right (← spanFrom c.here)

def letExpr (g : Productions) : Reader Node := do
  let start ← here
  expectKeyword .let_
  let name ← ident
  match ← token with
  | .symbol .assign =>
    step
    let _ ← skipNewlines
    let value ← g.assignedValue name
    return .assign name value (← spanFrom start)
  | .keyword .as_ =>
    step
    let newName ← ident
    return .alias_ name newName (← spanFrom start)
  | .symbol .comma =>
    let others ← moreNames g.rounds
    expectSymbol .assign
    let _ ← skipNewlines
    let value ← g.expr
    return .multiAssign (name :: others) value (← spanFrom start)
  | _ => unexpected ["'='", "'as'", "','"]

def loadKind? (path : String) : Option LoadKind :=
  if path.startsWith "libs." then some .libs
  else if path.startsWith "local." then some .beside
  else none

def loadExpr : Reader Node := do
  let start ← here
  expectKeyword .load
  match ← token with
  | .str path =>
    match loadKind? path with
    | some kind =>
      step
      return .load path kind (← spanFrom start)
    | none => failHere (.invalidPath path)
  | _ => failHere (.missing "string")

def usingExpr (g : Productions) : Reader Node := do
  let start ← here
  expectKeyword .using_
  let parent ← atKeyword .parent
  if parent then step
  let names ← Reader.names g.rounds
  return .using_ names parent (← spanFrom start)

def delExpr (g : Productions) : Reader Node := do
  let start ← here
  expectKeyword .del
  let names ← Reader.names g.rounds
  return .del names (← spanFrom start)

/-- The body after `do`: the statements of the following lines, or one statement. Tells whether it is a
block. -/
def clauseBody (g : Productions) : Reader (Node × Bool) := do
  match ← token with
  | .newline =>
    let start ← here
    let list ← g.statements
    return (.block list.statements (← spanFrom start), true)
  | _ =>
    let body ← g.statement
    return (body, false)

def closeBlock : Reader Unit := do
  let _ ← skipNewlines
  expectKeyword .done

def loopBody (g : Productions) : Reader (Node × Bool) := do
  let (body, block) ← g.clauseBody
  if block then closeBlock
  return (body, block)

def checkForm (seen : Option Bool) (block : Bool) : Reader Unit :=
  if seen = some (!block) then failHere (.mixedBodies "if") else pure ()

structure IfChain where
  cases_ : List (Node × Node)
  otherwise : Option Node
  multiline : Bool

def ifChain (g : Productions) (seen : Option Bool) : (rounds : Nat) → Reader IfChain
  | 0 => unexpected []
  | rounds + 1 => do
    let condition ← g.expr
    expectKeyword .do_
    let (body, block) ← g.clauseBody
    checkForm seen block
    let saved ← cursor
    let _ ← skipNewlines
    match ← token with
    | .keyword .elif =>
      step
      let chain ← ifChain g (some block) rounds
      return ⟨(condition, body) :: chain.cases_, chain.otherwise, chain.multiline⟩
    | .keyword .else_ =>
      step
      let (last, lastBlock) ← g.clauseBody
      checkForm (some block) lastBlock
      if lastBlock then closeBlock
      return ⟨[(condition, body)], some last, block⟩
    | .keyword .done =>
      if block then step else resume saved
      return ⟨[(condition, body)], none, block⟩
    | _ =>
      if block then unexpected ["'elif'", "'else'", "'done'"] else
        resume saved
        return ⟨[(condition, body)], none, block⟩

def ifExpr (g : Productions) : Reader Node := do
  let start ← here
  expectKeyword .if_
  let chain ← g.ifChain none g.rounds
  return .branch chain.cases_ chain.otherwise chain.multiline (← spanFrom start)

def stepClause (g : Productions) : Reader (Option Node) := do
  if ← atKeyword .step then
    step
    let value ← g.expr
    return some value
  else
    return none

def forRangeExpr (g : Productions) (start : Span) (var : String) : Reader Node := do
  step
  let first ← g.expr
  expectKeyword .to_
  let last ← g.expr
  let step ← g.stepClause
  expectKeyword .do_
  let (body, multiline) ← g.loopBody
  return .forRange var first last step body multiline (← spanFrom start)

def forInExpr (g : Productions) (start : Span) (var : String) : Reader Node := do
  let others ← moreNames g.rounds
  if ← atKeyword .in_ then
    step
    let iterable ← g.expr
    expectKeyword .do_
    let (body, multiline) ← g.loopBody
    return .forIn (var :: others) iterable body multiline (← spanFrom start)
  else
    unexpected ["'='", "'in'"]

def forExpr (g : Productions) : Reader Node := do
  let start ← here
  expectKeyword .for_
  if ← atKeyword .let_ then step
  let first ← ident
  if ← atSymbol .assign then g.forRangeExpr start first else g.forInExpr start first

def whileExpr (g : Productions) : Reader Node := do
  let start ← here
  expectKeyword .while_
  let condition ← g.expr
  expectKeyword .do_
  let (body, multiline) ← g.loopBody
  return .while_ condition body multiline (← spanFrom start)

def namespaceExpr (g : Productions) : Reader Node := do
  let start ← here
  expectKeyword .namespace_
  let name ← ident
  match ← token with
  | .newline =>
    let list ← g.statements
    closeBlock
    return .namespace_ name list.statements (← spanFrom start)
  | _ => unexpected ["newline"]

def listExpr (g : Productions) : Reader Node := do
  let start ← here
  expectSymbol .leftSquare
  let elements ← items .rightSquare g.expr g.rounds
  return .list elements (← spanFrom start)

def mapEntry (g : Productions) : Reader (Node × Node) := do
  let key ← g.expr
  expectSymbol .colon
  let value ← g.expr
  return (key, value)

def mapExpr (g : Productions) : Reader Node := do
  let start ← here
  expectSymbol .leftBrace
  let entries ← items .rightBrace g.mapEntry g.rounds
  return .map entries (← spanFrom start)

def keywordName : Reader String := do
  let name ← ident
  expectSymbol .assign
  return name

def argument (g : Productions) : Reader Arg := do
  let c ← cursor
  match c.token with
  | .symbol .star =>
    step
    return .spread (← g.expr)
  | .symbol .doubleStar =>
    step
    return .spreadKeywords (← g.expr)
  | .keyword .let_ =>
    step
    let name ← keywordName
    return .keyword name (← g.expr)
  | .ident _ =>
    if c.next.token.isSymbol .assign then
      let name ← keywordName
      return .keyword name (← g.expr)
    else
      return .positional (← g.expr)
  | _ => return .positional (← g.expr)

def parameter (g : Productions) : Reader Param := do
  match ← token with
  | .symbol .star =>
    step
    return .rest (← ident)
  | .symbol .doubleStar =>
    step
    return .keywords (← ident)
  | .keyword .let_ =>
    step
    let name ← keywordName
    return .optional name (← g.expr)
  | _ =>
    let name ← ident
    if ← atSymbol .assign then
      step
      return .optional name (← g.expr)
    else
      return .required name

def placedParameter (g : Productions) : Reader (Param × Span) := do
  let start ← here
  let param ← g.parameter
  return (param, ← spanFrom start)

structure ParamsSeen where
  names : List String := []
  defaulted : Bool := false
  rest : Bool := false
  keywords : Bool := false

def paramFault? (seen : ParamsSeen) : List (Param × Span) → Option SyntaxFault
  | [] => none
  | (param, span) :: rest =>
    if param.name ∈ seen.names then some ⟨.duplicateParameter param.name, span⟩ else
      let seen := { seen with names := param.name :: seen.names }
      match param with
      | .required name =>
        if seen.defaulted || seen.rest then some ⟨.requiredAfterDefault name, span⟩ else paramFault? seen rest
      | .optional _ _ => paramFault? { seen with defaulted := true } rest
      | .rest _ =>
        if seen.rest then some ⟨.duplicateCollector "*", span⟩ else paramFault? { seen with rest := true } rest
      | .keywords _ =>
        if seen.keywords then some ⟨.duplicateCollector "**", span⟩
        else paramFault? { seen with keywords := true } rest

def parameters (g : Productions) : Reader (List Param) := do
  expectSymbol .leftParen
  let params ← items .rightParen g.placedParameter g.rounds
  match paramFault? {} params with
  | some fault => failAt fault.cause fault.span
  | none => return params.map Prod.fst

def decorators (g : Productions) : (rounds : Nat) → Reader (List Node)
  | 0 => unexpected []
  | rounds + 1 => do
    if ← atSymbol .at_ then
      step
      let first ← g.climb .power
      let newlines ← skipNewlines
      if newlines = 0 then unexpected ["newline"] else
        let rest ← decorators g rounds
        return first :: rest
    else
      return []

def functionName : Reader (Option String) := do
  match ← token with
  | .ident name =>
    step
    return some name
  | _ => return none

def functionBody (g : Productions) : Reader (Node × Bool) := do
  match ← token with
  | .symbol .arrow =>
    step
    let _ ← skipNewlines
    let body ← g.expr
    return (body, true)
  | .newline =>
    let start ← here
    let list ← g.statements
    let body := Node.block list.statements (← spanFrom start)
    closeBlock
    return (body, false)
  | _ => unexpected ["'->'", "newline"]

def functionExpr (g : Productions) : Reader Node := do
  let start ← here
  let decorators ← g.decorators (g.rounds + 1)
  let isAsync ← atKeyword .async
  if isAsync then step
  expectKeyword .defun
  let name ← functionName
  let params ← g.parameters
  let (body, autoReturn) ← g.functionBody
  return .function name params body autoReturn isAsync decorators (← spanFrom start)

def unaryExpr (g : Productions) (op : UnaryOp) (level : Precedence) : Reader Node := do
  let start ← here
  step
  let operand ← g.climb level
  return .unary op operand (← spanFrom start)

def parenthesized (g : Productions) : Reader Node := do
  step
  let _ ← skipNewlines
  let node ← g.expr
  let _ ← skipNewlines
  expectSymbol .rightParen
  return node

def awaitExpr (g : Productions) : Reader Node := do
  let start ← here
  step
  let value ← g.climb .power
  return .await value (← spanFrom start)

def operand (g : Productions) : Reader Node := do
  let start ← here
  match ← token with
  | .int value => step; return .int value start
  | .float value => step; return .float value start
  | .str value => step; return .str value start
  | .ident name => step; return .ident name start
  | .symbol .plus => g.unaryExpr .plus .sign
  | .symbol .minus => g.unaryExpr .minus .sign
  | .keyword .not_ => g.unaryExpr .not_ .logic
  | .symbol .leftParen => g.parenthesized
  | .symbol .leftSquare => g.listExpr
  | .symbol .leftBrace => g.mapExpr
  | .keyword .if_ => g.ifExpr
  | .keyword .for_ => g.forExpr
  | .keyword .while_ => g.whileExpr
  | .symbol .at_ | .keyword .async | .keyword .defun => g.functionExpr
  | .keyword .namespace_ => g.namespaceExpr
  | .keyword .await => g.awaitExpr
  | .keyword .let_ => g.letExpr
  | .keyword .load => loadExpr
  | .keyword .using_ => g.usingExpr
  | .keyword .del => g.delExpr
  | _ => unexpected expressionStart

def callExpr (g : Productions) (callee : Node) : Reader Node := do
  step
  let args ← items .rightParen g.argument g.rounds
  return .call callee args (← spanFrom callee.span)

def memberExpr (object : Node) : Reader Node := do
  step
  let name ← ident
  return .member object name (← spanFrom object.span)

def binaryExpr (g : Productions) (op : BinaryOp) (left : Node) : Reader Node := do
  step
  let _ ← skipNewlines
  let right ← g.climb (.rightOf op)
  return .binary op left right (← spanFrom left.span)

def extend (g : Productions) (left : Node) : Reader Node := do
  match ← token with
  | .symbol .leftParen => g.callExpr left
  | .symbol .dot => memberExpr left
  | t =>
    match BinaryOp.ofToken? t with
    | some op => g.binaryExpr op left
    | none => unexpected ["an operator"]

def extendAbove (g : Productions) (level : Precedence) : (rounds : Nat) → Node → Reader Node
  | 0, _ => unexpected []
  | rounds + 1, left => do
    if level.rank < (Precedence.ofToken (← token)).rank then
      let wider ← g.extend left
      extendAbove g level rounds wider
    else
      return left

def climbExpr (g : Productions) (level : Precedence) : Reader Node := do
  let left ← g.operand
  g.extendAbove level (g.rounds + 1) left

def assignable (g : Productions) : Reader Node := do
  let node ← g.climbExpr .lowest
  if ← atSymbol .assign then
    match node with
    | .binary .index target index span =>
      step
      let _ ← skipNewlines
      let value ← g.expr
      return .indexAssign target index value (← spanFrom span)
    | _ => failHere .invalidTarget
  else
    return node

def anyExpr (g : Productions) : Reader Node := do
  match ← token with
  | .keyword .let_ => g.letExpr
  | .keyword .load => loadExpr
  | .keyword .using_ => g.usingExpr
  | .keyword .del => g.delExpr
  | _ => g.assignable

def endsReturn : Token → Bool
  | .newline | .eof | .keyword .done | .keyword .elif | .keyword .else_ | .symbol .rightParen => true
  | _ => false

def returnStatement (g : Productions) : Reader Node := do
  let start ← here
  step
  if endsReturn (← token) then
    return .return_ none (← spanFrom start)
  else
    let value ← g.expr
    return .return_ (some value) (← spanFrom start)

def anyStatement (g : Productions) : Reader Node := do
  let start ← here
  match ← token with
  | .keyword .return_ => g.returnStatement
  | .keyword .continue_ => step; return .continue_ start
  | .keyword .break_ => step; return .break_ start
  | _ => g.anyExpr

def statementLoop (g : Productions) (first : Bool) : (rounds : Nat) → Reader StatementList
  | 0 => unexpected []
  | rounds + 1 => do
    let newlines ← skipNewlines
    if !first && newlines = 0 then return ⟨[], none⟩ else
      match ← attempt g.anyStatement with
      | .ok statement =>
        let list ← statementLoop g false rounds
        return { list with statements := statement :: list.statements }
      | .error fault => return ⟨[], some fault⟩

def anyStatements (g : Productions) : Reader StatementList := g.statementLoop true (g.rounds + 2)

def raise (g : Productions) : Productions where
  rounds := g.rounds + 1
  expr := g.anyExpr
  climb := g.climbExpr
  statement := g.anyStatement
  statements := g.anyStatements

def ground : Productions where
  rounds := 0
  expr := unexpected []
  climb _ := unexpected []
  statement := unexpected []
  statements := unexpected []

def tower : Nat → Productions
  | 0 => ground
  | height + 1 => (tower height).raise

end Productions

def parseLexemes (lexemes : List Lexeme) : Except SyntaxFault Module :=
  let start := Cursor.ofLexemes lexemes
  match (Productions.tower (start.left + 2)).statements start with
  | .fail fault _ => .error fault
  | .ok list after =>
    let after := after.skipNewlines.1
    if after.token.isEof then .ok ⟨list.statements, after.spanFrom start.here⟩
    else .error (list.unmatched.getD ⟨.trailing after.token, after.here⟩)

def parseModule (text : String) : Except ProgramFault Module :=
  match tokenize text with
  | ⟨_, some fault⟩ => .error (.lexical fault)
  | ⟨lexemes, none⟩ => (parseLexemes lexemes).mapError .syntactic

end ScriptMachine
