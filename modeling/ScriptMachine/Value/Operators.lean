import ScriptMachine.Value.Arithmetic

namespace ScriptMachine

def position? (index : Int64) (length : Nat) : Option Nat :=
  let i := index.toInt
  let resolved := if i < 0 then i + length else i
  if 0 ≤ resolved ∧ resolved < length then some resolved.toNat else none

theorem position?_lt {index : Int64} {length p : Nat} (h : position? index length = some p) : p < length := by
  simp only [position?] at h
  rw [Option.ite_none_right_eq_some, Option.some.injEq] at h
  omega

def maxRepeat : Nat := 268435456

def repeatCount (length : Nat) (count : Int64) : Except Fault Nat :=
  let times := count.toInt.toNat
  if length = 0 then .ok 0
  else if length * times ≤ maxRepeat then .ok times
  else .error (.repeatTooLarge length times)

def repeated {α : Type} (items : List α) : Nat → List α
  | 0 => []
  | n + 1 => items ++ repeated items n

abbrev Operated := Except Fault (Value × Heap)

namespace Heap

def unchanged (h : Heap) (result : Except Fault Value) : Operated := result.map (·, h)

def add (h : Heap) (a b : Value) : Operated :=
  match h.items? a with
  | some items => .ok (h.putItems (items ++ [b]) a)
  | none =>
    match h.entries? a, h.entries? b with
    | some entries, some extra => .ok (h.putEntries (entries.union extra) a)
    | some _, none => .error (.illegalBinary .add a.tag b.tag)
    | none, _ =>
      match a, b with
      | .str s, .str t => .ok (.str (s ++ t), h)
      | .bytes s, .bytes t => .ok (.bytes (s ++ t), h)
      | .str _, _ | .bytes _, _ => .error (.illegalBinary .add a.tag b.tag)
      | _, _ => h.unchanged (Value.arithmetic .add a b)

def subtract (h : Heap) (a b : Value) : Operated :=
  match h.items? a with
  | some items =>
    match b with
    | .int index =>
      match position? index items.length with
      | some p => .ok (h.putItems (items.eraseIdx p) a)
      | none => .error (.removeOutOfBounds index items.length)
    | _ => .error (.illegalBinary .sub a.tag b.tag)
  | none =>
    match a.tag with
    | .str | .hashmap => .error (.illegalBinary .sub a.tag b.tag)
    | _ => h.unchanged (Value.arithmetic .sub a b)

def multiply (h : Heap) (a b : Value) : Operated :=
  match h.items? a with
  | some items =>
    match h.items? b, b with
    | some extra, _ => .ok (h.putItems (items ++ extra) a)
    | none, .int count => do
      let times ← repeatCount items.length count
      return h.putItems (repeated items times) a
    | none, _ => .error (.illegalBinary .mul a.tag b.tag)
  | none =>
    match a, b with
    | .str s, .int count => do
      let times ← repeatCount s.utf8ByteSize count
      return (.str (String.join (List.replicate times s)), h)
    | a, b =>
      match a.tag with
      | .str | .hashmap => .error (.illegalBinary .mul a.tag b.tag)
      | _ => h.unchanged (Value.arithmetic .mul a b)

def element {α : Type} (container : String) (index : Int64) (items : List α) (wrap : α → Value) :
    Except Fault Value :=
  match (position? index items.length).bind (items[·]?) with
  | some item => .ok (wrap item)
  | none => .error (.indexOutOfBounds container index items.length)

def index (h : Heap) (a key : Value) : Except Fault Value :=
  match h.entries? a with
  | some entries =>
    match key with
    | .str name =>
      match entries.get? name with
      | some v => .ok v
      | none => .error (.keyNotFound name entries.length)
    | _ => .error (.keyNotString key.tag)
  | none =>
    match h.items? a, a, key with
    | some items, _, .int i => element "list" i items id
    | none, .str s, .int i => element "string" i s.toList fun c => .str c.toString
    | none, .bytes bs, .int i => element "bytes" i bs fun b => .int b.toNat.toInt64
    | some _, _, _ | none, .str _, _ | none, .bytes _, _ => .error (.indexNotInt a.tag key.tag)
    | none, _, _ => .error (.illegalBinary .index a.tag key.tag)

def setIndex (h : Heap) (a key v : Value) : Operated :=
  match h.items? a, h.entries? a, key with
  | some items, _, .int i =>
    match position? i items.length with
    | some p => .ok (h.putItems (items.set p v) a)
    | none => .error (.indexOutOfBounds "list" i items.length)
  | none, some entries, .str name => .ok (h.putEntries (entries.insert name v) a)
  | some _, _, _ => .error (.listIndexNotInt key.tag)
  | none, some _, _ => .error (.keyNotString key.tag)
  | none, none, _ => .error (.notIndexable a.tag)

def logical (h : Heap) (a : Value) : Except Fault Bool :=
  if a.isNil then .error .noneOperand else .ok (h.truthy a)

def not_ (h : Heap) (a : Value) : Except Fault Value := do
  return .bool (!(← h.logical a))

def and_ (h : Heap) (a b : Value) : Except Fault Value := do
  let left ← h.logical a
  if left then return .bool (← h.logical b) else return .bool false

def or_ (h : Heap) (a b : Value) : Except Fault Value := do
  let left ← h.logical a
  if left then return .bool true else return .bool (← h.logical b)

def binary (h : Heap) (op : BinaryOp) (a b : Value) : Operated :=
  match op with
  | .add => h.add a b
  | .sub => h.subtract a b
  | .mul => h.multiply a b
  | .div | .floorDiv | .mod | .pow => h.unchanged (Value.arithmetic op a b)
  | .index => h.unchanged (h.index a b)
  | .eq | .ne | .lt | .gt | .le | .ge => h.unchanged ((h.compare op a b).map .bool)
  | .and_ => h.unchanged (h.and_ a b)
  | .or_ => h.unchanged (h.or_ a b)

def unary (h : Heap) (op : UnaryOp) (a : Value) : Except Fault Value :=
  match op with
  | .plus => a.posit
  | .minus => a.negate
  | .not_ => h.not_ a

end Heap

/-- A computation that reads and changes cells as it goes. If it fails, the cells stay as they are at that point. -/
abbrev Cells := ExceptT Fault (StateM Heap)

namespace Cells

def itemsOf (a : Value) : Cells (List Value) := return ((← get).items? a).getD []

def entriesOf (a : Value) : Cells (Dict Value) := return ((← get).entries? a).getD []

/-- A shared list is changed in its cell, a plain one in the copy that is returned. -/
def updateItems (a : Value) (change : List Value → List Value) : Cells Value := do
  let items ← itemsOf a
  modifyGet fun h => h.putItems (change items) a

def updateEntries (a : Value) (change : Dict Value → Dict Value) : Cells Value := do
  let entries ← entriesOf a
  modifyGet fun h => h.putEntries (change entries) a

def add (a b : Value) : Cells Value := do
  match a, b with
  | .str s, .str t => return .str (s ++ t)
  | .bytes s, .bytes t => return .bytes (s ++ t)
  | a, b =>
    match a.tag, b.tag with
    | .list, _ => updateItems a (· ++ [b])
    | .hashmap, .hashmap =>
      let extra ← entriesOf b
      updateEntries a (·.union extra)
    | .str, _ | .hashmap, _ | .bytes, _ => throw (.illegalBinary .add a.tag b.tag)
    | _, _ => ofExcept (Value.arithmetic .add a b)

def subtract (a b : Value) : Cells Value := do
  match a.tag, b with
  | .list, .int index =>
    let length := (← itemsOf a).length
    match position? index length with
    | some p => updateItems a (·.eraseIdx p)
    | none => throw (.removeOutOfBounds index length)
  | .list, _ | .str, _ | .hashmap, _ => throw (.illegalBinary .sub a.tag b.tag)
  | _, _ => ofExcept (Value.arithmetic .sub a b)

def multiply (a b : Value) : Cells Value := do
  match a, b with
  | .str s, .int count =>
    let times ← ofExcept (repeatCount s.utf8ByteSize count)
    return .str (String.join (List.replicate times s))
  | a, b =>
    match a.tag, b with
    | .list, .int count =>
      let times ← ofExcept (repeatCount (← itemsOf a).length count)
      updateItems a (repeated · times)
    | .list, b =>
      if b.tag = .list then
        let extra ← itemsOf b
        updateItems a (· ++ extra)
      else throw (.illegalBinary .mul .list b.tag)
    | .str, _ | .hashmap, _ => throw (.illegalBinary .mul a.tag b.tag)
    | _, _ => ofExcept (Value.arithmetic .mul a b)

def binary (op : BinaryOp) (a b : Value) : Cells Value := do
  match op with
  | .add => add a b
  | .sub => subtract a b
  | .mul => multiply a b
  | .div | .floorDiv | .mod | .pow => ofExcept (Value.arithmetic op a b)
  | .index => ofExcept ((← get).index a b)
  | .eq | .ne | .lt | .gt | .le | .ge => return .bool (← ofExcept ((← get).compare op a b))
  | .and_ => ofExcept ((← get).and_ a b)
  | .or_ => ofExcept ((← get).or_ a b)

end Cells

end ScriptMachine
