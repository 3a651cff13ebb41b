import ScriptMachine.Value

namespace ScriptMachine

structure Heap where
  lists : Array (List Value) := #[]
  maps : Array (Dict Value) := #[]

namespace Heap

def list (h : Heap) (cell : Nat) : List Value := h.lists.getD cell []

def map (h : Heap) (cell : Nat) : Dict Value := h.maps.getD cell []

def setList (h : Heap) (cell : Nat) (items : List Value) : Heap :=
  { h with lists := h.lists.setIfInBounds cell items }

def setMap (h : Heap) (cell : Nat) (entries : Dict Value) : Heap :=
  { h with maps := h.maps.setIfInBounds cell entries }

def allocList (h : Heap) (items : List Value) : Value × Heap :=
  (.sharedList h.lists.size, { h with lists := h.lists.push items })

def allocMap (h : Heap) (entries : Dict Value) : Value × Heap :=
  (.sharedMap h.maps.size, { h with maps := h.maps.push entries })

def items? (h : Heap) : Value → Option (List Value)
  | .list items => some items
  | .sharedList cell => some (h.list cell)
  | _ => none

def entries? (h : Heap) : Value → Option (Dict Value)
  | .map entries => some entries
  | .sharedMap cell => some (h.map cell)
  | _ => none

def putItems (h : Heap) (items : List Value) : Value → Value × Heap
  | .sharedList cell => (.sharedList cell, h.setList cell items)
  | _ => (.list items, h)

def putEntries (h : Heap) (entries : Dict Value) : Value → Value × Heap
  | .sharedMap cell => (.sharedMap cell, h.setMap cell entries)
  | _ => (.map entries, h)

mutual

def viewWith (h : Heap) (inner : Value → Value) : Value → Value
  | .list items => .list (viewItems h inner items)
  | .map entries => .map (viewEntries h inner entries)
  | .sharedList cell => .list ((h.list cell).map inner)
  | .sharedMap cell => .map ((h.map cell).map fun e => (e.1, inner e.2))
  | v => v

def viewItems (h : Heap) (inner : Value → Value) : List Value → List Value
  | [] => []
  | v :: rest => viewWith h inner v :: viewItems h inner rest

def viewEntries (h : Heap) (inner : Value → Value) : List (String × Value) → List (String × Value)
  | [] => []
  | (key, v) :: rest => (key, viewWith h inner v) :: viewEntries h inner rest

end

def viewTo (h : Heap) : (depth : Nat) → Value → Value
  | 0 => h.viewWith id
  | depth + 1 => h.viewWith (viewTo h depth)

/-- No cell lies within itself, so containers nest no deeper than there are cells. -/
def view (h : Heap) (v : Value) : Value := h.viewTo (h.lists.size + h.maps.size) v

def truthy (h : Heap) : Value → Bool
  | .nil => false
  | .bool b => b
  | .int n => n != 0
  | .float x => x != 0
  | .decimal q => q != 0
  | .str s => !s.isEmpty
  | .bytes bs => !bs.isEmpty
  | .list items => !items.isEmpty
  | .map entries => !entries.isEmpty
  | .sharedList cell => !(h.list cell).isEmpty
  | .sharedMap cell => !(h.map cell).isEmpty
  | _ => true

end Heap

end ScriptMachine
