import ScriptMachine.Machine.Outcome

/-! A task: what it is doing, and the stack of frames that say what is left to do with the result. -/

namespace ScriptMachine

inductive Completion where
  | value (v : Value)
  | error (f : Failure)
  | return_ (v : Value)
  | break_
  | continue_

def Completion.ofResult : Result → Completion
  | .ok v => .value v
  | .error f => .error f

def Completion.result : Completion → Result
  | value v | return_ v => .ok v
  | error f => .error f
  | break_ | continue_ => .ok .nil

structure Deadline where
  at_ : Nat
  limit : Nat

inductive Producer where
  | thread (number : Nat)
  | future (id : Nat)

inductive Wait where
  | moment (time : Option Nat) (span : Span) (ctx : Context)
  | coChannel (id : Nat) (span : Span) (ctx : Context)
  | background (r : Result) (span : Span) (ctx : Context)
  | channel (id : Nat) (until_ : Option Nat)
  | turn (p : Producer) (limit : Option Nat) (span : Span) (ctx : Context)
  | outcome (p : Producer) (limit until_ : Option Nat) (span : Span) (ctx : Context)
  | query (p : Producer)
  | drained (pool : Nat)

structure RangeLoop where
  var : String
  stop : Value
  step : Value
  ascending : Bool
  body : Node
  multiline : Bool
  span : Span
  ctx : Context

structure RangeHead where
  var : String
  stop : Node
  step : Option Node
  body : Node
  multiline : Bool
  span : Span
  ctx : Context

structure EachLoop where
  vars : List String
  body : Node
  multiline : Bool
  span : Span
  ctx : Context

structure WhileLoop where
  condition : Node
  body : Node
  multiline : Bool
  span : Span
  ctx : Context

inductive Frame where
  | listItem (done : List Value) (rest : List Node) (ctx : Context)
  | mapKey (entries : Dict Value) (key value : Node) (rest : List (Node × Node)) (ctx : Context)
  | mapValue (entries : Dict Value) (key : String) (rest : List (Node × Node)) (ctx : Context)
  | statement (rest : List Node) (ctx : Context)
  | assign (name : String) (ctx : Context)
  | unpack (names : List String) (span : Span) (ctx : Context)
  | storeKey (target value : Node) (span : Span) (ctx : Context)
  | storeValue (target : Node) (key : Value) (span : Span) (ctx : Context)
  | storeOuterKey (left target : Node) (key value result : Value) (span : Span) (ctx : Context)
  /-- The changed container goes to `outer`, if it is there, under the key beside it. -/
  | storeContainer (outer : Option (Node × Value)) (key value result : Value) (span : Span) (ctx : Context)
  | logicLeft (conjunction : Bool) (right : Node) (span : Span) (ctx : Context)
  | logicRight (span : Span) (ctx : Context)
  | binaryLeft (op : BinaryOp) (right : Node) (span : Span) (ctx : Context)
  | binaryRight (op : BinaryOp) (left : Value) (span : Span) (ctx : Context)
  | unary (op : UnaryOp) (span : Span) (ctx : Context)
  | condition (body : Node) (rest : List (Node × Node)) (otherwise : Option Node) (multiline : Bool) (ctx : Context)
  | branchBody (multiline : Bool)
  | rangeStart (head : RangeHead)
  | rangeStop (head : RangeHead) (start : Value)
  | rangeStep (head : RangeHead) (start stop : Value)
  | rangeBody (loop : RangeLoop) (current : Value) (collected : List Value)
  | eachSource (loop : EachLoop)
  | eachBody (loop : EachLoop) (rest collected : List Value)
  | whileCondition (loop : WhileLoop) (collected : List Value)
  | whileBody (loop : WhileLoop) (collected : List Value)
  | decorator (function : Value) (span : Span) (rest : List Node) (name : Option String) (ctx : Context)
  | decorated (rest : List Node) (name : Option String) (ctx : Context)
  | callee (args : List Arg) (span : Span) (ctx : Context)
  | argument (callee : Value) (positional : List Value) (keywords : Dict Value) (current : Arg) (rest : List Arg)
      (span : Span) (ctx : Context)
  | member (name : String) (span : Span) (ctx : Context)
  | namespaceBody (ns : Namespace) (current : Node) (rest : List Node) (name : String) (span : Span) (ctx : Context)
  | await (span : Span) (ctx : Context)
  | returned
  | moduleStatement (current : Node) (rest : List Node) (ctx : Context)
  | leaveModule
  | default (closure : Closure) (inner : Context) (name : String) (node : Node) (rest : List (Param × Option Value))
  | functionBody (closure : Closure) (inner : Context)
  | memoize (coroutine : Nat)
  | gathered (done : List Value) (rest : List Value) (span : Span) (ctx : Context)
  | restoreDeadline (outer : Option Deadline)
  | settle (span : Span) (ctx : Context)
  | caught
  | panicked
  | cleanup (final : Value) (span : Span) (ctx : Context)
  | cleanedUp (result : Completion)
  | threadEnd (number : Nat)
  | jobEnd (future pool : Nat)

inductive Control where
  | eval (node : Node) (ctx : Context)
  | call (callee : Value) (args : List Value) (kwargs : Dict Value) (span : Span) (ctx : Context)
  | done (c : Completion)
  | wait (w : Wait)

structure Task where
  control : Control
  stack : List Frame
  depth : Nat := 0
  deadline : Option Deadline := none
  thread : Option Nat := none
  clock : Nat

def Task.isOver (t : Task) : Bool :=
  match t.control, t.stack with
  | .done _, [] => true
  | _, _ => false

end ScriptMachine
