import ScriptMachine.Machine.Load
import ScriptMachine.Machine.Perform

/-! The first step of evaluating each kind of node, and of each round of a loop. -/

namespace ScriptMachine

namespace State

def blockNext (s : State) (ctx : Context) (last : Value) : List Node → State
  | [] => s.value last
  | statement :: rest =>
    match s.interruption? with
    | some f => s.fail f statement.span ctx
    | none => (s.push (.statement rest ctx)).eval statement ctx

def listNext (s : State) (ctx : Context) (done : List Value) : List Node → State
  | [] => s.value (.list done.reverse)
  | node :: rest => (s.push (.listItem done rest ctx)).eval node ctx

def mapNext (s : State) (ctx : Context) (entries : Dict Value) : List (Node × Node) → State
  | [] => s.value (.map entries)
  | (key, value) :: rest => (s.push (.mapKey entries key value rest ctx)).eval key ctx

def branchNext (s : State) (otherwise : Option Node) (multiline : Bool) (ctx : Context) : List (Node × Node) → State
  | (condition, body) :: rest => (s.push (.condition body rest otherwise multiline ctx)).eval condition ctx
  | [] =>
    match otherwise with
    | some body => (s.push (.branchBody multiline)).eval body ctx
    | none => s.value .nil

def argumentNode : Arg → Node
  | .positional node | .keyword _ node | .spread node | .spreadKeywords node => node

def argumentsNext (s : State) (callee : Value) (positional : List Value) (keywords : Dict Value) (span : Span)
    (ctx : Context) : List Arg → State
  | [] => s.call callee positional.reverse keywords span ctx
  | arg :: rest =>
    (s.push (.argument callee positional keywords arg rest span ctx)).eval (argumentNode arg) ctx

def loopValue (s : State) (multiline : Bool) (collected : List Value) : State :=
  s.value (if multiline then .nil else .list collected.reverse)

def unpacked (h : Heap) (names : List String) (v : Value) : Except Fault (List Value) :=
  match h.items? v with
  | none => .error .unpackNotList
  | some items =>
    let items := match items, names with
      | [inner], _ :: _ :: _ => (h.items? inner).getD items
      | _, _ => items
    if items.length = names.length then .ok items else .error (.unpackCount names.length items.length)

def assignAll (s : State) (ctx : Context) (bindings : List (String × Value)) : State :=
  bindings.foldl (fun s b => s.assign ctx b.1 b.2) s

def unpack (s : State) (ctx : Context) (names : List String) (v : Value) : Except Fault State := do
  let items ← unpacked s.world.heap names v
  return s.assignAll ctx (names.zip items)

def rangeRound (s : State) (loop : RangeLoop) (current : Value) (collected : List Value) : State :=
  match s.world.heap.compare (if loop.ascending then .lt else .gt) current loop.stop with
  | .error f => s.fail f loop.span loop.ctx
  | .ok false => s.loopValue loop.multiline collected
  | .ok true =>
    let s := s.assign loop.ctx loop.var current
    match s.interruption? with
    | some f => s.fail f loop.span loop.ctx
    | none => (s.push (.rangeBody loop current collected)).eval loop.body loop.ctx

def isNumber : Value → Bool
  | .int _ | .float _ | .decimal _ => true
  | _ => false

def rangeFirst (s : State) (head : RangeHead) (start stop step : Value) : State :=
  match [start, stop, step].find? (!isNumber ·) with
  | some v => s.fail (.boundNotNumber v.tag) head.span head.ctx
  | none =>
    if s.world.heap.equal step (.int 0) then s.fail .zeroStep head.span head.ctx
    else
      match s.world.heap.compare .gt step (.int 0) with
      | .error f => s.fail f head.span head.ctx
      | .ok ascending =>
        s.rangeRound ⟨head.var, stop, step, ascending, head.body, head.multiline, head.span, head.ctx⟩ start []

def rangeNext (s : State) (loop : RangeLoop) (current : Value) (collected : List Value) : State :=
  match s.world.heap.add current loop.step with
  | .error f => s.fail f loop.span loop.ctx
  | .ok (next, h) => (s.setHeap h).rangeRound loop next collected

def elements? (h : Heap) (v : Value) : Option (List Value) :=
  match v with
  | .str text => some (text.toList.map fun c => .str c.toString)
  | .bytes bs => some (bs.map fun b => .int (Int64.ofNat b.toNat))
  | v => (h.items? v).or ((h.entries? v).map fun es => es.map fun e => .list [.str e.1, e.2])

def eachRound (s : State) (loop : EachLoop) (collected : List Value) : List Value → State
  | [] => s.loopValue loop.multiline collected
  | item :: rest =>
    let bound : Except Fault State := match loop.vars with
      | [name] => .ok (s.assign loop.ctx name item)
      | names => s.unpack loop.ctx names item
    match bound with
    | .error f => s.fail f loop.span loop.ctx
    | .ok s =>
      match s.interruption? with
      | some f => s.fail f loop.span loop.ctx
      | none => (s.push (.eachBody loop rest collected)).eval loop.body loop.ctx

def eachFirst (s : State) (loop : EachLoop) (source : Value) : State :=
  match elements? s.world.heap source with
  | some items => s.eachRound loop [] items
  | none => s.fail (.notIterable source.tag) loop.span loop.ctx

def whileRound (s : State) (loop : WhileLoop) (collected : List Value) : State :=
  (s.push (.whileCondition loop collected)).eval loop.condition loop.ctx

def removeNames (s : State) (span : Span) (ctx : Context) : List String → State
  | [] => s.value .nil
  | name :: rest =>
    let (removed, s) := s.onTables (ctx.remove · name)
    match removed with
    | some _ => removeNames s span ctx rest
    | none => s.fail (.undefined name) span ctx

def declareNames (s : State) (parent : Bool) (span : Span) (ctx : Context) : List String → State
  | [] => s.value .nil
  | name :: rest =>
    match ctx.declare s.world.tables name parent with
    | .ok (_, tables) => declareNames (s.setTables tables) parent span ctx rest
    | .error f => s.fail f span ctx

def store (s : State) (target : Node) (key value result : Value) (span : Span) (ctx : Context) : State :=
  match target with
  | .ident name place =>
    match s.lookup ctx name with
    | none => s.fail (.undefined name) place ctx
    | some container =>
      match s.world.heap.setIndex container key value with
      | .error f => s.fail f span ctx
      | .ok (changed, h) =>
        let s := s.setHeap h
        (if changed.isShared then s else s.assign ctx name changed).value result
  | .binary .index left right _ =>
    (s.push (.storeOuterKey left target key value result span ctx)).eval right ctx
  | other => (s.push (.storeContainer none key value result span ctx)).eval other ctx

def decorateNext (s : State) (function : Value) (name : Option String) (ctx : Context) : List Node → State
  | decorator :: rest => (s.push (.decorator function decorator.span rest name ctx)).eval decorator ctx
  | [] =>
    match name with
    | some name => (s.assign ctx name function).value function
    | none => s.value function

def newFunction (s : State) (closure : Closure) : Value × State :=
  (.function s.world.functions closure,
    { s with world := { s.world with functions := s.world.functions + 1 } })

def defineNamespace (s : State) (name : String) (body : List Node) (span : Span) (ctx : Context) : State :=
  let (inner, s) := s.onTables (Context.nest name ctx (some ctx) span)
  let v := Value.namespace_ s.world.namespaces.size ⟨name, body, inner⟩
  let s := { s with world := { s.world with namespaces := s.world.namespaces.push false } }
  (s.assign ctx name v).value v

def readMember (s : State) (ns : Namespace) (name : String) (span : Span) (ctx : Context) : State :=
  match (s.world.tables.table (ns.context.scope.headD 0)).get? name with
  | some v => s.value v
  | none => s.fail (.notAMember name ns.name) span ctx

def namespaceNext (s : State) (ns : Namespace) (name : String) (span : Span) (ctx : Context) : List Node → State
  | [] => s.readMember ns name span ctx
  | statement :: rest => (s.push (.namespaceBody ns statement rest name span ctx)).eval statement ns.context

def member (s : State) (object : Value) (name : String) (span : Span) (ctx : Context) : State :=
  match object with
  | .namespace_ id ns =>
    if s.world.namespaces.getD id true then s.readMember ns name span ctx
    else
      let s := { s with world := { s.world with namespaces := s.world.namespaces.setIfInBounds id true } }
      s.namespaceNext ns name span ctx ns.body
  | v => s.fail (.noMember v.tag name) span ctx

def evalNode (s : State) (node : Node) (ctx : Context) : State :=
  match node with
  | .int n _ => s.value (.int (Int64.ofNat n))
  | .float x _ => s.value (.float x)
  | .str text _ => s.value (.str text)
  | .list elements _ => s.listNext ctx [] elements
  | .map entries _ => s.mapNext ctx [] entries
  | .block statements _ => s.blockNext ctx .nil statements
  | .ident name span =>
    match s.lookup ctx name with
    | some v => s.value v
    | none => s.fail (.undefined name) span ctx
  | .assign name value _ => (s.push (.assign name ctx)).eval value ctx
  | .multiAssign names value span => (s.push (.unpack names span ctx)).eval value ctx
  | .alias_ name newName span =>
    match s.lookup ctx name with
    | some v => (s.assign ctx newName v).value v
    | none => s.fail (.undefined name) span ctx
  | .indexAssign target index value span => (s.push (.storeKey target value span ctx)).eval index ctx
  | .del names span => s.removeNames span ctx names
  | .binary .and_ left right span => (s.push (.logicLeft true right span ctx)).eval left ctx
  | .binary .or_ left right span => (s.push (.logicLeft false right span ctx)).eval left ctx
  | .binary op left right span => (s.push (.binaryLeft op right span ctx)).eval left ctx
  | .unary op operand span => (s.push (.unary op span ctx)).eval operand ctx
  | .branch cases_ otherwise multiline _ => s.branchNext otherwise multiline ctx cases_
  | .forRange var start stop step body multiline span =>
    (s.push (.rangeStart ⟨var, stop, step, body, multiline, span, ctx⟩)).eval start ctx
  | .forIn vars iterable body multiline span =>
    (s.push (.eachSource ⟨vars, body, multiline, span, ctx⟩)).eval iterable ctx
  | .while_ condition body multiline span => s.whileRound ⟨condition, body, multiline, span, ctx⟩ []
  | .function name params body autoReturn isAsync decorators _ =>
    let closure : Closure := ⟨name.getD "<anonymous>", ⟨params, body, autoReturn, isAsync⟩, ctx⟩
    let (f, s) := s.newFunction closure
    s.decorateNext f name ctx decorators.reverse
  | .call callee args span => (s.push (.callee args span ctx)).eval callee ctx
  | .member object name span => (s.push (.member name span ctx)).eval object ctx
  | .await value span => (s.push (.await span ctx)).eval value ctx
  | .return_ none _ => s.finish (.return_ .nil)
  | .return_ (some value) _ => (s.push .returned).eval value ctx
  | .continue_ _ => s.finish .continue_
  | .break_ _ => s.finish .break_
  | .load path kind span => s.load path kind span ctx
  | .namespace_ name body span => s.defineNamespace name body span ctx
  | .using_ names parent span => s.declareNames parent span ctx names

end State

end ScriptMachine
