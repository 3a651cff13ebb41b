import ScriptMachine.Fault
import ScriptMachine.Number.Decimal
import ScriptMachine.Value.Heap

/-! Numbers of different kinds brought to one kind, and equality and order of values. -/

namespace ScriptMachine

inductive NumberPair where
  | ints (a b : Int64)
  | floats (a b : Float)
  | decimals (a b : Rat)

namespace Value

def exactFloat (x : Float) : Except Fault Rat :=
  match Number.ratOfFloat? x with
  | some q => .ok q
  | none => .error (.notExact x)

def toRat? : Value → Except Fault (Option Rat)
  | .int n => .ok (some n.toInt)
  | .float x => (exactFloat x).map some
  | .decimal q => .ok (some q)
  | _ => .ok none

def float? : Value → Option Float
  | .int n => some n.toFloat
  | .float x => some x
  | .decimal q => some (Number.floatOfRat q)
  | _ => none

def isDecimal : Value → Bool
  | .decimal _ => true
  | _ => false

def promote (a b : Value) : Except Fault (Option NumberPair) :=
  match a, b with
  | .int m, .int n => .ok (some (.ints m n))
  | a, b =>
    if a.isDecimal || b.isDecimal then do
      let p ← a.toRat?
      let q ← b.toRat?
      return match p, q with
        | some p, some q => some (.decimals p q)
        | _, _ => none
    else match a.float?, b.float? with
      | some x, some y => .ok (some (.floats x y))
      | _, _ => .ok none

def compareFloats (x y : Float) : Option Ordering :=
  if x < y then some .lt else if x == y then some .eq else if y < x then some .gt else none

def compareRats (p q : Rat) : Ordering := if p < q then .lt else if p = q then .eq else .gt

def compareStrings (s t : String) : Ordering := if s < t then .lt else if s = t then .eq else .gt

inductive Relation where
  | ordered (o : Ordering)
  | unordered
  | incomparable
deriving DecidableEq, Repr

def relate (a b : Value) : Relation :=
  match a, b with
  | .str s, .str t => .ordered (compareStrings s t)
  | .bool x, .bool y => .ordered (compare x y)
  | a, b =>
    match promote a b with
    | .ok (some (.ints m n)) => .ordered (compare m.toInt n.toInt)
    | .ok (some (.floats x y)) => (compareFloats x y).elim .unordered .ordered
    | .ok (some (.decimals p q)) => .ordered (compareRats p q)
    | .ok none => .incomparable
    | .error _ => .unordered

def sameNumber (a b : Value) : Bool :=
  match promote a b with
  | .ok (some _) => a.relate b = .ordered .eq
  | _ => false

mutual

/-- Equality of values without shared containers: lists by their elements, hashmaps of one size by what the second
has under the keys of the first, handles by identity. -/
def same : Value → Value → Bool
  | .nil, .nil => true
  | .bool a, .bool b => a == b
  | .str a, .str b => a == b
  | .bytes a, .bytes b => a == b
  | .list a, .list b => sameItems a b
  | .map a, .map b => a.length == b.length && sameEntries a b
  | .function a _, .function b _ => a == b
  | .builtin a, .builtin b => a == b
  | .coroutine a _, .coroutine b _ => a == b
  | .namespace_ a _, .namespace_ b _ => a == b
  | .thread a, .thread b => a == b
  | .pool a _, .pool b _ => a == b
  | .future a, .future b => a == b
  | .file a p, .file b q => a == b && p.same q
  | .channel a, .channel b => a == b
  | .coChannel a, .coChannel b => a == b
  | a, b => sameNumber a b

def sameItems : List Value → List Value → Bool
  | [], [] => true
  | v :: rest, w :: others => same v w && sameItems rest others
  | _, _ => false

def sameEntries : List (String × Value) → Dict Value → Bool
  | [], _ => true
  | (key, v) :: rest, d =>
    match d.get? key with
    | some w => same v w && sameEntries rest d
    | none => false

end

def orderHolds : BinaryOp → Ordering → Bool
  | .lt, o => o == .lt
  | .gt, o => o == .gt
  | .le, o => o != .gt
  | .ge, o => o != .lt
  | _, _ => false

end Value

def Heap.equal (h : Heap) (a b : Value) : Bool := (h.view a).same (h.view b)

def Heap.compare (h : Heap) (op : BinaryOp) (a b : Value) : Except Fault Bool :=
  if a.isNil || b.isNil then
    let both := a.isNil && b.isNil
    match op with
    | .eq | .le | .ge => .ok both
    | .ne => .ok (!both)
    | _ => .ok false
  else match op with
    | .eq => .ok (h.equal a b)
    | .ne => .ok (!h.equal a b)
    | op =>
      match a.relate b with
      | .ordered o => .ok (Value.orderHolds op o)
      | .unordered => .ok false
      | .incomparable => .error (.illegalBinary op a.tag b.tag)

end ScriptMachine
