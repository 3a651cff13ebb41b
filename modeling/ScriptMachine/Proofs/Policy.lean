import ScriptMachine.Proofs.Signals

/-! Policies: which code may run where, which names may be bound there, which functions may be called, and what holds of
the tables. -/

namespace ScriptMachine

structure Contents where
  closure : Closure → Prop
  space : Nat → Namespace → Prop
  deferred : Closure → Context → Prop
  place : Span → Context → Prop
  failure : Failure → Prop

structure Rules extends Contents where
  code : Node → Context → Prop
  unit : Node → Context → Prop := code
  binds : String → Context → Prop

structure Policy extends Rules where
  tables : Tables → Prop
  sees : State → Prop := fun _ => True

namespace Contents

variable (C : Contents)

mutual

def value : Value → Prop
  | .list items => items_ items
  | .map entries => entries_ entries
  | .function _ closure => C.closure closure
  | .namespace_ id ns => C.space id ns
  | .nil | .bool _ | .int _ | .float _ | .decimal _ | .str _ | .bytes _ | .sharedList _ | .sharedMap _ | .builtin _
  | .coroutine _ _ | .channel _ | .coChannel _ | .thread _ | .pool _ _ | .future _ | .file _ _ => True

def items_ : List Value → Prop
  | [] => True
  | v :: rest => value v ∧ items_ rest

def entries_ : List (String × Value) → Prop
  | [] => True
  | (_, v) :: rest => value v ∧ entries_ rest

end

def values (vs : List Value) : Prop := ∀ v ∈ vs, C.value v

def entries (d : Dict Value) : Prop := ∀ e ∈ d, C.value e.2

def result : Result → Prop
  | .ok v => C.value v
  | .error f => C.failure f

def completion : Completion → Prop
  | .value v | .return_ v => C.value v
  | .error f => C.failure f
  | .break_ | .continue_ => True

def wait : Wait → Prop
  | .moment _ span ctx | .coChannel _ span ctx | .turn _ _ span ctx | .outcome _ _ _ span ctx => C.place span ctx
  | .background r span ctx => C.result r ∧ C.place span ctx
  | .channel _ _ | .query _ | .drained _ => True

def work : Work → Prop
  | .call closure inner => C.deferred closure inner
  | .receive _ span ctx => C.place span ctx
  | .background r => C.result r
  | .timer _ => True

def coroutine : Coroutine → Prop
  | .pending w => C.work w
  | .running => True
  | .done r => C.result r

def bindings (t : Tables) : Prop := ∀ d ∈ t.tables, C.entries d

def outcome (o : Outcome) : Prop := (∀ r ∈ o.sent, C.result r) ∧ ∀ r ∈ o.settled, C.result r

def job (j : Job) : Prop := C.values (j.callee :: j.args) ∧ C.entries j.kwargs ∧ C.place j.span j.ctx

def heap (h : Heap) : Prop := (∀ vs ∈ h.lists, C.values vs) ∧ ∀ d ∈ h.maps, C.entries d

def starting (t : Task) : Prop :=
  ∃ callee args kwargs span ctx last, t.control = .call callee args kwargs span ctx ∧
    t.stack = [.settle span ctx, last] ∧ C.values (callee :: args) ∧ C.entries kwargs ∧ C.place span ctx ∧
      ((∃ number, last = .threadEnd number) ∨ ∃ future pool, last = .jobEnd future pool)

structure Covers (w : World) : Prop where
  bindings : C.bindings w.tables
  heap : C.heap w.heap
  coroutines : ∀ c ∈ w.coroutines, C.coroutine c
  channels : ∀ vs ∈ w.channels, C.values vs
  coChannels : ∀ vs ∈ w.coChannels, C.values vs
  threads : ∀ t ∈ w.threads, C.outcome t.outcome
  futures : ∀ f ∈ w.futures, C.outcome f.outcome
  pools : ∀ p ∈ w.pools, ∀ j ∈ p.queue, C.job j
  born : ∀ t ∈ w.born, C.starting t

end Contents

namespace Rules

variable (R : Rules)

def codes (nodes : List Node) (ctx : Context) : Prop := ∀ n ∈ nodes, R.code n ctx

def units (nodes : List Node) (ctx : Context) : Prop := ∀ n ∈ nodes, R.unit n ctx

def pairs (nodes : List (Node × Node)) (ctx : Context) : Prop := ∀ p ∈ nodes, R.code p.1 ctx ∧ R.code p.2 ctx

def bindsAll (names : List String) (ctx : Context) : Prop := ∀ name ∈ names, R.binds name ctx

def storable (target : Node) (ctx : Context) : Prop := R.code target ctx ∧ ∀ name ∈ target.root, R.binds name ctx

structure Entered (c : Closure) (inner : Context) : Prop where
  closure : R.closure c
  body : R.unit c.routine.body inner
  binds : ∀ p ∈ c.routine.params, R.binds p.name inner
  deferred : c.routine.isAsync = true → R.deferred c inner

def rangeHead (h : RangeHead) : Prop :=
  R.binds h.var h.ctx ∧ R.code h.stop h.ctx ∧ (∀ n ∈ h.step, R.code n h.ctx) ∧ R.code h.body h.ctx ∧
    R.place h.span h.ctx

def rangeLoop (l : RangeLoop) : Prop :=
  R.binds l.var l.ctx ∧ R.value l.stop ∧ R.value l.step ∧ R.code l.body l.ctx ∧ R.place l.span l.ctx

def eachLoop (l : EachLoop) : Prop := R.bindsAll l.vars l.ctx ∧ R.code l.body l.ctx ∧ R.place l.span l.ctx

def whileLoop (l : WhileLoop) : Prop := R.code l.condition l.ctx ∧ R.code l.body l.ctx ∧ R.place l.span l.ctx

def frame : Frame → Prop
  | .listItem done rest ctx => R.values done ∧ R.codes rest ctx
  | .mapKey entries key value rest ctx => R.entries entries ∧ R.code key ctx ∧ R.code value ctx ∧ R.pairs rest ctx
  | .mapValue entries _ rest ctx => R.entries entries ∧ R.pairs rest ctx
  | .statement rest ctx => R.codes rest ctx
  | .assign name ctx => R.binds name ctx
  | .unpack names span ctx => R.bindsAll names ctx ∧ R.place span ctx
  | .storeKey target value span ctx => R.storable target ctx ∧ R.code value ctx ∧ R.place span ctx
  | .storeValue target key span ctx => R.storable target ctx ∧ R.value key ∧ R.place span ctx
  | .storeOuterKey left target key value result span ctx =>
    R.storable left ctx ∧ R.code target ctx ∧ R.values [key, value, result] ∧ R.place span ctx
  | .storeContainer outer key value result span ctx =>
    (∀ o ∈ outer, R.storable o.1 ctx ∧ R.value o.2) ∧ R.values [key, value, result] ∧ R.place span ctx
  | .logicLeft _ right span ctx | .binaryLeft _ right span ctx => R.code right ctx ∧ R.place span ctx
  | .binaryRight _ left span ctx => R.value left ∧ R.place span ctx
  | .logicRight span ctx | .unary _ span ctx | .member _ span ctx | .await span ctx | .settle span ctx =>
      R.place span ctx
  | .condition body rest otherwise _ ctx => R.code body ctx ∧ R.pairs rest ctx ∧ ∀ n ∈ otherwise, R.code n ctx
  | .rangeStart head => R.rangeHead head
  | .rangeStop head start => R.rangeHead head ∧ R.value start
  | .rangeStep head start stop => R.rangeHead head ∧ R.value start ∧ R.value stop
  | .rangeBody loop current collected => R.rangeLoop loop ∧ R.value current ∧ R.values collected
  | .eachSource loop => R.eachLoop loop
  | .eachBody loop rest collected => R.eachLoop loop ∧ R.values rest ∧ R.values collected
  | .whileCondition loop collected | .whileBody loop collected => R.whileLoop loop ∧ R.values collected
  | .decorator function span rest name ctx =>
    R.value function ∧ R.place span ctx ∧ R.codes rest ctx ∧ R.bindsAll name.toList ctx
  | .decorated rest name ctx => R.codes rest ctx ∧ R.bindsAll name.toList ctx
  | .callee args span ctx => R.codes (args.map State.argumentNode) ctx ∧ R.place span ctx
  | .argument callee positional keywords current rest span ctx =>
    R.values (callee :: positional) ∧ R.entries keywords ∧ R.codes ((current :: rest).map State.argumentNode) ctx ∧
      R.place span ctx
  | .namespaceBody ns current rest _ span ctx =>
    (∃ id, R.space id ns) ∧ R.units (current :: rest) ns.context ∧ R.place span ctx
  | .moduleStatement current rest ctx => R.units (current :: rest) ctx
  | .default closure inner name node rest =>
    R.Entered closure inner ∧ R.unit node closure.context ∧ R.binds name inner ∧
      ∀ e ∈ rest, e.1 ∈ closure.routine.params ∧ ∀ v ∈ e.2, R.value v
  | .functionBody closure inner => R.unit closure.routine.body inner
  | .gathered done rest span ctx => R.values done ∧ R.values rest ∧ R.place span ctx
  | .cleanup final span ctx => R.value final ∧ R.place span ctx
  | .cleanedUp result => R.completion result
  | .branchBody _ | .returned | .leaveModule | .memoize _ | .restoreDeadline _ | .caught | .panicked | .threadEnd
      _ => True
  | .jobEnd _ _ => False

def control : Control → Prop
  | .eval node ctx => R.code node ctx
  | .call callee args kwargs span ctx => R.values (callee :: args) ∧ R.entries kwargs ∧ R.place span ctx
  | .done c => R.completion c
  | .wait w => R.wait w

def above (base : List Frame) (f : Frame) : Prop := R.frame f ∨ base = [] ∧ ∃ future pool, f = .jobEnd future pool

def stack (base frames : List Frame) : Prop := ∃ inner, frames = inner ++ base ∧ ∀ f ∈ inner, R.above base f

def task (base : List Frame) (t : Task) : Prop := R.stack base t.stack ∧ R.control t.control

end Rules

namespace Policy

variable (P : Policy)

structure Holds (base : List Frame) (s : State) : Prop where
  world : P.Covers s.world
  tables : P.tables s.world.tables
  stack : P.stack base s.task.stack

structure Ready (base : List Frame) (s : State) : Prop extends P.Holds base s where
  control : P.control s.task.control

structure Lawful : Prop where
  run {n : Node} {ctx : Context} : P.unit n ctx → P.code n ctx
  part {n m : Node} {ctx : Context} : P.code n ctx → m ∈ n.parts → P.code m ctx
  target {n : Node} {name : String} {ctx : Context} : P.code n ctx → name ∈ n.targets → P.binds name ctx
  span {n : Node} {ctx : Context} : P.code n ctx → P.place n.span ctx
  failure {f : Fault} {span : Span} {ctx : Context} : P.place span ctx → P.failure (f.at_ span ctx)
  stray {s : State} {c : Completion} {f : Frame} {rest : List Frame} {r : Reason} {span : Span} {ctx : Context} :
    P.sees s → s.task.control = .done c → s.task.stack = f :: rest → f.unit?.isSome = true → c.stray? = some r →
      P.place span ctx → P.failure (r.at_ span ctx)
  function {name : Option String} {params : List Param} {body : Node} {autoReturn isAsync : Bool}
    {decorators : List Node} {span : Span} {ctx : Context} :
    P.code (.function name params body autoReturn isAsync decorators span) ctx →
      P.closure ⟨name.getD "<anonymous>", ⟨params, body, autoReturn, isAsync⟩, ctx⟩
  default {c : Closure} {name : String} {node : Node} :
    P.closure c → .optional name node ∈ c.routine.params → P.unit node c.context
  enter {c : Closure} {span : Span} {caller : Context} {t : Tables} :
    P.closure c → P.place span caller → P.tables t →
      P.tables (Context.nest c.name c.context (some caller) span t).2 ∧
        P.Entered c (Context.nest c.name c.context (some caller) span t).1
  drive {c : Closure} {inner : Context} : P.deferred c inner → P.unit c.routine.body inner
  assign {name : String} {ctx : Context} {t : Tables} {v : Value} :
    P.binds name ctx → P.tables t → P.tables (ctx.assign t name v)
  remove {name : String} {ctx : Context} {t : Tables} :
    P.binds name ctx → P.tables t → P.tables (ctx.remove t name).2
  declare {names : List String} {parent : Bool} {span : Span} {ctx : Context} {name : String} {t t' : Tables}
    {b : Binding} : P.code (.using_ names parent span) ctx → name ∈ names →
      ctx.declare t name parent = .ok (b, t') → P.tables t → P.tables t'
  define {s : State} {name : String} {body : List Node} {span : Span} {ctx : Context} : P.sees s →
    s.task.control = .eval (.namespace_ name body span) ctx → P.code (.namespace_ name body span) ctx →
      P.tables s.world.tables → P.tables (Context.nest name ctx (some ctx) span s.world.tables).2 ∧
        P.space s.world.namespaces.size ⟨name, body, (Context.nest name ctx (some ctx) span s.world.tables).1⟩
  member {id : Nat} {ns : Namespace} : P.space id ns → P.units ns.body ns.context
  load {s : State} {path : String} {kind : LoadKind} {span : Span} {ctx : Context} {source : Source} {m : Module} :
    P.sees s → s.task.control = .eval (.load path kind span) ctx → P.code (.load path kind span) ctx →
      s.findModule path kind ctx = .ok (source, m) → P.tables s.world.tables →
        P.tables (s.moduleContext "<module>" source (some ctx) span false).2.world.tables ∧
          P.units m.statements (s.moduleContext "<module>" source (some ctx) span false).1

end Policy

end ScriptMachine
