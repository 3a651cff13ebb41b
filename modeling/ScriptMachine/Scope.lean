import ScriptMachine.Fault

/-! Names and their values: tables nested lexically, and the `using` declarations that let a context read and
write a name in a table further out. -/

namespace ScriptMachine

inductive Binding where
  | here
  | global
  | outer (distance : Nat)
deriving DecidableEq, Repr

def Binding.text : Binding → String
  | here => "Local"
  | global => "Global"
  | outer distance => s!"Outer({distance})"

structure Tables where
  tables : Array (Dict Value) := #[]
  escapes : Array (Dict Binding) := #[]

namespace Tables

def table (t : Tables) (id : Nat) : Dict Value := t.tables.getD id []

def escapesOf (t : Tables) (id : Nat) : Dict Binding := t.escapes.getD id []

def set (t : Tables) (id : Nat) (name : String) (v : Value) : Tables :=
  let ⟨tables, escapes⟩ := t
  ⟨tables.modify id (·.insert name v), escapes⟩

def erase (t : Tables) (id : Nat) (name : String) : Tables :=
  let ⟨tables, escapes⟩ := t
  ⟨tables.modify id (·.erase name), escapes⟩

def alloc (t : Tables) (entries : Dict Value) : Nat × Tables :=
  let ⟨tables, escapes⟩ := t
  (tables.size, ⟨tables.push entries, escapes⟩)

def allocEscapes (t : Tables) : Nat × Tables :=
  let ⟨tables, escapes⟩ := t
  (escapes.size, ⟨tables, escapes.push []⟩)

def find? (t : Tables) (chain : List Nat) (name : String) : Option Value :=
  chain.findSome? fun id => (t.table id).get? name

def findOuter? (t : Tables) (chain : List Nat) (name : String) : Option Nat :=
  (chain.tail.findIdx? fun id => (t.table id).has name).map (· + 1)

theorem table_set_self (t : Tables) {id : Nat} (name : String) (v : Value) (h : id < t.tables.size) :
    ((t.set id name v).table id).get? name = some v := by
  simp [set, table, Array.getD_eq_getD_getElem?, Array.getElem_modify, h, Dict.get?_insert_self]

theorem table_set_of_ne (t : Tables) {id other : Nat} (name : String) (v : Value) (h : id ≠ other) :
    (t.set id name v).table other = t.table other := by
  simp [set, table, Array.getD_eq_getD_getElem?, Array.getElem?_modify, h]

end Tables

namespace Context

def root (c : Context) : Nat := c.scope.getLastD 0

def callersFrom (entry : Span) : Option Context → List Site
  | some c => ⟨c.source, entry, c.name⟩ :: c.callers
  | none => []

def ofModule (name : String) (source : Source) (globals : Nat) (parent : Option Context) (entry : Span)
    (t : Tables) : Context × Tables :=
  let (privates, t) := t.alloc []
  let (escapes, t) := t.allocEscapes
  (⟨name, source, callersFrom entry parent, [globals], [privates], escapes⟩, t)

def nest (name : String) (lexical : Context) (parent : Option Context) (entry : Span) (t : Tables) :
    Context × Tables :=
  let (scope, t) := t.alloc []
  let (privates, t) := t.alloc []
  let (escapes, t) := t.allocEscapes
  (⟨name, lexical.source, callersFrom entry parent, scope :: lexical.scope, privates :: lexical.privates, escapes⟩, t)

def binding (c : Context) (t : Tables) (name : String) : Binding :=
  ((t.escapesOf c.escapes).get? name).getD .here

def chainOf (c : Context) (t : Tables) (name : String) : List Nat :=
  match c.binding t name with
  | .here => c.scope
  | .global => [c.root]
  | .outer distance => if c.scope.length ≤ distance then [c.root] else c.scope.drop distance

def home (c : Context) (t : Tables) (name : String) : Nat := (c.chainOf t name).headD c.root

def lookup (c : Context) (t : Tables) (name : String) : Option Value :=
  match c.binding t name with
  | .here => (t.find? c.scope name).or (t.find? c.privates name)
  | _ => t.find? (c.chainOf t name) name

def privateTable (c : Context) : Nat := c.privates.headD 0

def assign (c : Context) (t : Tables) (name : String) (v : Value) : Tables :=
  (t.set (c.home t name) name v).set c.privateTable name v

def remove (c : Context) (t : Tables) (name : String) : Option Value × Tables :=
  let home := c.home t name
  ((t.table home).get? name, (t.erase home name).erase c.privateTable name)

def declare (c : Context) (t : Tables) (name : String) (parent : Bool) : Except Fault (Binding × Tables) :=
  if c.isGlobal then .error .usingAtTop
  else
    let found : Except Fault Binding :=
      if parent then
        match t.findOuter? c.scope name with
        | some distance => .ok (.outer distance)
        | none => .error (.noOuterBinding name)
      else if (t.table c.root).has name then .ok .global
      else .error (.notGlobal name)
    found.map fun b => (b, { t with escapes := t.escapes.modify c.escapes (·.insert name b) })

end Context

end ScriptMachine
