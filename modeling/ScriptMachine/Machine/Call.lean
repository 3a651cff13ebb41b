import ScriptMachine.Arguments
import ScriptMachine.Machine.World

namespace ScriptMachine

namespace State

def enterBody (s : State) (closure : Closure) (inner : Context) : State :=
  let routine := closure.routine
  if s.world.settings.maxDepth ≤ s.task.depth then
    s.fail (.tooDeep s.world.settings.maxDepth) routine.body.span inner
  else
    let s := s.push (.functionBody closure inner)
    { s with task := { s.task with depth := s.task.depth + 1, control := .eval routine.body inner } }

def bindParams (s : State) (closure : Closure) (inner : Context) : List (Param × Option Value) → State
  | [] =>
    if closure.routine.isAsync then
      let (c, s) := s.newCoroutine closure.name (.call closure inner)
      s.value c
    else s.enterBody closure inner
  | (param, some v) :: rest => bindParams (s.assign inner param.name v) closure inner rest
  | (.optional name node, none) :: rest => (s.push (.default closure inner name node rest)).eval node closure.context
  | (param, none) :: rest => bindParams (s.assign inner param.name .nil) closure inner rest

def callFunction (s : State) (closure : Closure) (args : List Value) (kwargs : Dict Value) (span : Span)
    (caller : Context) : State :=
  let params := closure.routine.params
  match bindArguments closure.name (params.map fun p => (p.name, p.slot)) args kwargs with
  | .error f => s.fail f span caller
  | .ok bound =>
    let (inner, s) := s.onTables (Context.nest closure.name closure.context (some caller) span)
    s.bindParams closure inner (params.zip bound)

def startWork (s : State) (span : Span) (ctx : Context) : Work → State
  | .call closure inner => s.enterBody closure inner
  | .receive id span ctx => s.wait (.coChannel id span ctx)
  | .background r => s.wait (.background r span ctx)
  | .timer time => s.wait (.moment time span ctx)

def drive (s : State) (id : Nat) (name : String) (span : Span) (ctx : Context) : State :=
  match s.world.coroutines[id]? with
  | some (.pending work) => ((s.setCoroutine id .running).push (.memoize id)).startWork span ctx work
  | some (.done r) => s.finish (.ofResult r)
  | _ => s.fail (.alreadyRunning name) span ctx

def settled (s : State) (v : Value) (span : Span) (ctx : Context) : State :=
  match v with
  | .coroutine id name => s.drive id name span ctx
  | v => s.value v

def gatherNext (s : State) (done : List Value) (span : Span) (ctx : Context) : List Value → State
  | [] => s.value (.list done.reverse)
  | c :: rest => (s.push (.gathered done rest span ctx)).settled c span ctx

def withDeadline (s : State) (limit : Nat) : State :=
  let outer := s.task.deadline
  let inner := (s.after limit).map (Deadline.mk · limit)
  let chosen := match outer, inner with
    | some o, some i => if o.at_ ≤ i.at_ then some o else some i
    | none, some i => some i
    | o, none => o
  let s := s.push (.restoreDeadline outer)
  { s with task := { s.task with deadline := chosen } }

end State

end ScriptMachine
