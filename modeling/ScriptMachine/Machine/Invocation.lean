import ScriptMachine.Machine.Call
import ScriptMachine.Machine.Signature

namespace ScriptMachine

structure Invocation where
  builtin : Builtin
  args : List Value
  span : Span
  ctx : Context

namespace Invocation

def arg (inv : Invocation) (index : Nat) : Value := inv.args.getD index .nil

def wrong {α : Type} (inv : Invocation) (index : Nat) (expected : String) : Except Fault α :=
  .error (.wrongArgument inv.builtin.name index expected)

def int (inv : Invocation) (index : Nat) : Except Fault Int64 :=
  match inv.arg index with
  | .int n => .ok n
  | _ => inv.wrong index "an int"

def number (inv : Invocation) (index : Nat) : Except Fault Float :=
  match (inv.arg index).float? with
  | some x => .ok x
  | none => inv.wrong index "a number"

def bool (inv : Invocation) (index : Nat) : Except Fault Bool :=
  match inv.arg index with
  | .bool b => .ok b
  | _ => inv.wrong index "a boolean"

def string (inv : Invocation) (index : Nat) : Except Fault String :=
  match inv.arg index with
  | .str s => .ok s
  | _ => inv.wrong index "a string"

def items (inv : Invocation) (h : Heap) (index : Nat) : Except Fault (List Value) :=
  match h.items? (inv.arg index) with
  | some items => .ok items
  | none => inv.wrong index "a list"

def entries (inv : Invocation) (h : Heap) (index : Nat) : Except Fault (Dict Value) :=
  match h.entries? (inv.arg index) with
  | some entries => .ok entries
  | none => inv.wrong index "a hashmap"

def callable (inv : Invocation) (index : Nat) : Except Fault Value :=
  if (inv.arg index).isCallable then .ok (inv.arg index) else inv.wrong index "a function"

def seconds? (inv : Invocation) (index : Nat) : Except Fault (Option Nat) :=
  if (inv.arg index).isNil then .ok none else do
    let x ← inv.number index
    match Number.nanosOfSeconds? x with
    | some n => .ok (some n)
    | none => .error (.invalidSeconds x)

def seconds (inv : Invocation) (index : Nat) : Except Fault Nat := do
  match ← inv.seconds? index with
  | some n => .ok n
  | none => inv.wrong index "a number"

def coroutine (inv : Invocation) (index : Nat) : Except Fault (Nat × String) :=
  match inv.arg index with
  | .coroutine id name => .ok (id, name)
  | _ => inv.wrong index "a coroutine"

def thread (inv : Invocation) (index : Nat) : Except Fault Nat :=
  match inv.arg index with
  | .thread number => .ok number
  | _ => inv.wrong index "a thread"

def pool (inv : Invocation) (index : Nat) : Except Fault Nat :=
  match inv.arg index with
  | .pool id _ => .ok id
  | _ => inv.wrong index "a thread pool"

def future (inv : Invocation) (index : Nat) : Except Fault Nat :=
  match inv.arg index with
  | .future id => .ok id
  | _ => inv.wrong index "a future"

def channel (inv : Invocation) (index : Nat) : Except Fault Nat :=
  match inv.arg index with
  | .channel id => .ok id
  | _ => inv.wrong index "a channel"

def coChannel (inv : Invocation) (index : Nat) : Except Fault Nat :=
  match inv.arg index with
  | .coChannel id => .ok id
  | _ => inv.wrong index "a co-channel"

def path (inv : Invocation) (index : Nat) : Except Fault Path :=
  match inv.arg index with
  | .file _ p => .ok p
  | .str s => .ok ⟨s⟩
  | _ => inv.wrong index "a file or a string"

end Invocation

end ScriptMachine
