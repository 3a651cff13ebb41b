import ScriptMachine.Machine.Invocation

/-! Built-in functions on values, text, files and the standard streams. -/

namespace ScriptMachine

namespace Convert

def toInt? : Value → Option Int64
  | .int n => some n
  | .bool b => some (if b then 1 else 0)
  | .float x => (Number.wholePart? x).bind Number.word?
  | .decimal q => Number.word? (q.num.tdiv q.den)
  | .str s => Number.readWord? (Text.trim s.toList)
  | _ => none

def toFloat? : Value → Option Float
  | .bool b => some (if b then 1 else 0)
  | .str s => Number.readFloat? (Text.trim s.toList)
  | v => v.float?

def toDecimal? : Value → Option Rat
  | .int n => some n.toInt
  | .decimal q => some q
  | .float x => if x.isFinite then Number.readDecimal? (Number.FloatFormat.plain.text x) else none
  | .str s => Number.readDecimal? s
  | _ => none

def byte? : Value → Option UInt8
  | .int n => if 0 ≤ n.toInt ∧ n.toInt < 256 then some n.toInt.toNat.toUInt8 else none
  | _ => none

def length? (h : Heap) (v : Value) : Option Nat :=
  match v with
  | .str s => some s.length
  | .bytes bs => some bs.length
  | v => ((h.items? v).map List.length).or ((h.entries? v).map List.length)

end Convert

def beforeStop (current stop step : Int64) : Bool := (0 < step && current < stop) || (step < 0 && stop < current)

theorem beforeStop_iff {current stop step : Int64} : beforeStop current stop step = true ↔
    0 < step.toInt ∧ current.toInt < stop.toInt ∨ step.toInt < 0 ∧ stop.toInt < current.toInt := by
  simp [beforeStop, Int64.lt_iff_toInt_lt]

def gapToStop (current stop step : Int64) : Nat :=
  if 0 < step then (stop.toInt - current.toInt).toNat else (current.toInt - stop.toInt).toNat

theorem gapToStop_lt {current next stop step : Int64} (h : beforeStop current stop step = true)
    (hnext : Number.word? (current.toInt + step.toInt) = some next) :
    gapToStop next stop step < gapToStop current stop step := by
  have hsum := Number.toInt_of_word? hnext
  rw [beforeStop_iff] at h
  simp only [gapToStop, Int64.lt_iff_toInt_lt, Int64.toInt_zero]
  split <;> omega

/-- The numbers from `current` on, step by step, up to but without `stop`. The count also ends where the next number
does not fit. -/
def countUpTo (stop step current : Int64) (counted : List Int64) : List Int64 :=
  if beforeStop current stop step then
    match _ : Number.word? (current.toInt + step.toInt) with
    | some next => countUpTo stop step next (current :: counted)
    | none => (current :: counted).reverse
  else counted.reverse
termination_by gapToStop current stop step
decreasing_by exact gapToStop_lt ‹_› ‹_›

def splitLine : List UInt8 → List UInt8 × List UInt8
  | [] => ([], [])
  | b :: bs =>
    if b = 10 then ([b], bs)
    else
      let (line, rest) := splitLine bs
      (b :: line, rest)

def trimLineEnd (text : String) : String :=
  String.ofList ((text.toList.reverse.dropWhile fun c => c = '\n' ∨ c = '\r').reverse)

def World.readLine (w : World) : Except FileFault String × World :=
  let (line, rest) := splitLine w.input
  (FileTree.decodeText line, { w with input := rest })

namespace State

def input (s : State) (inv : Invocation) : State :=
  let s := s.print (s.world.heap.text (inv.arg 0))
  let (line, world) := s.world.readLine
  let s := { s with world }
  match line with
  | .ok line => s.value (.str (trimLineEnd line))
  | .error reason => s.fail (.inputUnreadable reason) inv.span inv.ctx

def convert {α : Type} (s : State) (inv : Invocation) (target : String) (wrap : α → Value) (result : Option α) :
    Except Fault State :=
  match result with
  | some a => .ok (s.value (wrap a))
  | none => .error (.notConvertible (s.world.heap.repr (inv.arg 0)) target)

def bytesOf (s : State) (inv : Invocation) : Except Fault State :=
  match inv.arg 0 with
  | .bytes bs => .ok (s.value (.bytes bs))
  | .str text => .ok (s.value (.bytes text.toUTF8.toList))
  | v =>
    match s.world.heap.items? v with
    | some items =>
      match items.mapM Convert.byte? with
      | some bs => .ok (s.value (.bytes bs))
      | none => .error .notByteList
    | none => inv.wrong 0 "a string, list or bytes"

def textOf (s : State) (inv : Invocation) : Except Fault State :=
  match inv.arg 0 with
  | .bytes bs =>
    match FileTree.decodeText bs with
    | .ok text => .ok (s.value (.str text))
    | .error _ => .error .bytesNotText
  | _ => inv.wrong 0 "bytes"

def withItems (s : State) (list : Value) (items : List Value) : State :=
  let (v, h) := s.world.heap.putItems items list
  (s.setHeap h).value v

def pop (s : State) (inv : Invocation) : Except Fault State := do
  let items ← inv.items s.world.heap 0
  let index ← inv.int 1
  match position? index items.length with
  | some p => return (s.withItems (inv.arg 0) (items.eraseIdx p)).value (items.getD p .nil)
  | none => .error (.removeOutOfBounds index items.length)

def range (s : State) (inv : Invocation) : Except Fault State := do
  let (start, stop) ← if (inv.arg 1).isNil then do pure ((0 : Int64), ← inv.int 0)
    else do pure (← inv.int 0, ← inv.int 1)
  let step ← inv.int 2
  if step.toInt = 0 then .error .zeroRangeStep
  else return s.value (.list ((countUpTo stop step start []).map .int))

def setShared (s : State) (inv : Invocation) : Except Fault State := do
  let shared ← inv.bool 1
  match s.world.heap.items? (inv.arg 0), s.world.heap.entries? (inv.arg 0) with
  | some items, _ =>
    if shared then
      let (v, h) := s.world.heap.allocList items
      return (s.setHeap h).value v
    else return s.value (.list items)
  | none, some entries =>
    if shared then
      let (v, h) := s.world.heap.allocMap entries
      return (s.setHeap h).value v
    else return s.value (.map entries)
  | none, none => inv.wrong 0 "a list or hashmap"

def openFile (s : State) (inv : Invocation) : Except Fault State := do
  let path : Path := ⟨← inv.string 0⟩
  return s.value (.file (path.fileName?.getD path.text) path)

def readFile (s : State) (p : Path) : Except Fault Value :=
  match s.world.files.readText p with
  | .ok text => .ok (.str text)
  | .error reason => .error (.fileUnreadable p.text reason)

def writeFile (s : State) (p : Path) (text : String) : Except Fault State :=
  match s.world.files.write p text with
  | .ok files => .ok ({ s with world := { s.world with files } }.value .nil)
  | .error reason => .error (.fileUnwritable p.text reason)

def inBackground (s : State) (inv : Invocation) (r : Except Fault Value) : State :=
  let (c, s) := s.newCoroutine inv.builtin.name (.background (r.mapError (·.at_ inv.span inv.ctx)))
  s.value c

def writeInBackground (s : State) (inv : Invocation) (p : Path) (text : String) : State :=
  match s.writeFile p text with
  | .ok written => written.inBackground inv (.ok .nil)
  | .error f => s.inBackground inv (.error f)

end State

end ScriptMachine
