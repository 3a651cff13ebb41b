import ScriptMachine.Files.Tree
import ScriptMachine.Machine.Task
import ScriptMachine.Number.Seconds
import ScriptMachine.Scope
import ScriptMachine.Value.Operators
import ScriptMachine.Value.Text

/-! All that tasks share: values in cells, tables of names, coroutines, channels, threads, pools, files and the
standard streams. -/

namespace ScriptMachine

structure Settings where
  libRoot : Path
  maxDepth : Nat

inductive Work where
  | call (closure : Closure) (inner : Context)
  | receive (coChannel : Nat) (span : Span) (ctx : Context)
  | background (r : Result)
  | timer (time : Option Nat)

inductive Coroutine where
  | pending (work : Work)
  | running
  | done (r : Result)

structure Thread where
  outcome : Outcome := {}
  watched : Bool := false
  cancelled : Bool := false

structure Future where
  outcome : Outcome := {}
  watched : Bool := false

structure Job where
  future : Nat
  callee : Value
  args : List Value
  kwargs : Dict Value
  span : Span
  ctx : Context

structure Pool where
  idle : Nat
  workers : Nat
  queue : List Job := []
  closed : Bool := false

structure World where
  settings : Settings
  globals : Nat
  heap : Heap := {}
  tables : Tables := {}
  functions : Nat := 0
  coroutines : Array Coroutine := #[]
  namespaces : Array Bool := #[]
  channels : Array (List Value) := #[]
  coChannels : Array (List Value) := #[]
  threads : Array Thread := #[]
  futures : Array Future := #[]
  pools : Array Pool := #[]
  files : FileTree
  input : List UInt8
  output : List String := []
  born : List Task := []

structure State where
  world : World
  task : Task

namespace State

def finish (s : State) (c : Completion) : State := { s with task := { s.task with control := .done c } }

def value (s : State) (v : Value) : State := s.finish (.value v)

def fail (s : State) (f : Fault) (span : Span) (ctx : Context) : State := s.finish (.error (f.at_ span ctx))

def eval (s : State) (node : Node) (ctx : Context) : State :=
  { s with task := { s.task with control := .eval node ctx } }

def call (s : State) (callee : Value) (args : List Value) (kwargs : Dict Value) (span : Span) (ctx : Context) : State :=
  { s with task := { s.task with control := .call callee args kwargs span ctx } }

def wait (s : State) (w : Wait) : State := { s with task := { s.task with control := .wait w } }

def push (s : State) (f : Frame) : State := { s with task := { s.task with stack := f :: s.task.stack } }

def setTables (s : State) (t : Tables) : State := { s with world := { s.world with tables := t } }

/-- An operation on the tables. They are taken out of the world while it runs, so that nobody else holds them. -/
def onTables {α : Type} (s : State) (f : Tables → α × Tables) : α × State :=
  let ⟨⟨settings, globals, heap, tables, functions, coroutines, namespaces, channels, coChannels, threads, futures,
    pools, files, input, output, born⟩, task⟩ := s
  let (a, tables) := f tables
  (a, ⟨⟨settings, globals, heap, tables, functions, coroutines, namespaces, channels, coChannels, threads, futures,
    pools, files, input, output, born⟩, task⟩)

theorem onTables_eq {α : Type} (s : State) (f : Tables → α × Tables) :
    s.onTables f = ((f s.world.tables).1, s.setTables (f s.world.tables).2) := rfl

def setHeap (s : State) (h : Heap) : State := { s with world := { s.world with heap := h } }

def lookup (s : State) (ctx : Context) (name : String) : Option Value := ctx.lookup s.world.tables name

def assign (s : State) (ctx : Context) (name : String) (v : Value) : State :=
  (s.onTables fun t => ((), ctx.assign t name v)).2

def print (s : State) (text : String) : State :=
  { s with world := { s.world with output := text :: s.world.output } }

def isCancelled (s : State) : Bool :=
  match s.task.thread with
  | some number => (s.world.threads[number]?.map (·.cancelled)).getD false
  | none => false

def interruption? (s : State) : Option Fault :=
  if s.isCancelled then some .cancelled
  else match s.task.deadline with
    | some d => if d.at_ ≤ s.task.clock then some (.timedOut (Number.secondsOfNanos d.limit)) else none
    | none => none

def after (s : State) (limit : Nat) : Option Nat :=
  let time := s.task.clock + limit
  if time / Number.nanosPerSecond < Number.wordBound then some time else none

def newCoroutine (s : State) (name : String) (work : Work) : Value × State :=
  (.coroutine s.world.coroutines.size name,
    { s with world := { s.world with coroutines := s.world.coroutines.push (.pending work) } })

def setCoroutine (s : State) (id : Nat) (c : Coroutine) : State :=
  { s with world := { s.world with coroutines := s.world.coroutines.setIfInBounds id c } }

def startDelay : Nat := 50000

def spawn (s : State) (t : Task) : State := { s with world := { s.world with born := s.world.born ++ [t] } }

end State

end ScriptMachine
