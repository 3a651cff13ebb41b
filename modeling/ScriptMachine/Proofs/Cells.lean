import Mathlib
import ScriptMachine.Machine.Step

/-! Operators that change cells as they go: they do what the operators on a whole heap say, and one that fails has
changed nothing. -/

namespace ScriptMachine

/-- The outcome of an operator in the heap it was applied to. -/
def Operated.inHeap (h : Heap) : Operated → Except Fault Value × Heap
  | .ok (v, h') => (.ok v, h')
  | .error f => (.error f, h)

lemma Operated.inHeap_eq_ok {h h' : Heap} {v : Value} {o : Operated} :
    o.inHeap h = (.ok v, h') ↔ o = .ok (v, h') := by
  cases o <;> simp [inHeap, Prod.ext_iff]

namespace Cells

variable {h : Heap} {a b : Value} {op : BinaryOp} {items : List Value}

lemma run_ofExcept (r : Except Fault Value) : (ofExcept r : Cells Value).run h = (h.unchanged r).inHeap h := by
  cases r <;> rfl

lemma tag_of_items? (hi : h.items? a = some items) : a.tag = .list := by
  cases a <;> first | rfl | simp [Heap.items?] at hi

lemma run_itemsOf_bind (hi : h.items? a = some items) (f : List Value → Cells Value) :
    (itemsOf a >>= f).run h = (f items).run h := by
  change (f ((h.items? a).getD [])).run h = _
  rw [hi, Option.getD_some]

lemma run_ofExcept_bind {α : Type} (r : Except Fault α) (f : α → Cells Value) : (ofExcept r >>= f).run h =
    match r with
    | .ok v => (f v).run h
    | .error e => (.error e, h) := by
  cases r <;> rfl

lemma run_updateItems (hi : h.items? a = some items) (change : List Value → List Value) :
    (updateItems a change).run h = Operated.inHeap h (.ok (h.putItems (change items) a)) := by
  rw [updateItems, run_itemsOf_bind hi]
  rfl

lemma run_add : (add a b).run h = (h.add a b).inHeap h := by
  cases a with
  | list | sharedList => rfl
  | map | sharedMap | str | bytes => cases b <;> rfl
  | _ =>
    simp only [add, Heap.add, Value.tag, Heap.items?, Heap.entries?]
    exact run_ofExcept _

lemma run_subtract : (subtract a b).run h = (h.subtract a b).inHeap h := by
  cases hi : h.items? a with
  | some items =>
    have ha := tag_of_items? hi
    cases b with
    | int index =>
      simp only [subtract, Heap.subtract, ha, hi, run_itemsOf_bind hi]
      cases position? index items.length with
      | some p => exact run_updateItems hi _
      | none => rfl
    | _ => simp only [subtract, Heap.subtract, ha, hi]; rfl
  | none =>
    cases a with
    | list | sharedList => simp [Heap.items?] at hi
    | map | sharedMap | str => rfl
    | _ =>
      simp only [subtract, Heap.subtract, Value.tag, Heap.items?]
      exact run_ofExcept _

lemma run_repeat (hi : h.items? a = some items) (ha : a.tag = .list) (count : Int64) :
    (multiply a (.int count)).run h = (h.multiply a (.int count)).inHeap h := by
  have hcells : multiply a (.int count) = itemsOf a >>= fun items =>
      ofExcept (repeatCount items.length count) >>= fun times => updateItems a (repeated · times) := by
    cases a <;> first | rfl | simp [Value.tag] at ha
  have hheap : h.multiply a (.int count) = repeatCount items.length count >>= fun times =>
      .ok (h.putItems (repeated items times) a) := by
    unfold Heap.multiply
    rw [hi]
    rfl
  rw [hcells, hheap, run_itemsOf_bind hi, run_ofExcept_bind]
  cases repeatCount items.length count with
  | ok times => exact run_updateItems hi _
  | error => rfl

lemma run_multiply : (multiply a b).run h = (h.multiply a b).inHeap h := by
  cases hi : h.items? a with
  | some items =>
    have ha := tag_of_items? hi
    cases b with
    | int count => exact run_repeat hi ha count
    | _ => cases a <;> first | rfl | simp [Value.tag] at ha
  | none =>
    cases a with
    | list | sharedList => simp [Heap.items?] at hi
    | map | sharedMap => rfl
    | str s =>
      cases b with
      | int count =>
        refine (run_ofExcept_bind _ _).trans ?_
        simp only [Heap.multiply, Heap.items?]
        cases repeatCount s.utf8ByteSize count <;> rfl
      | _ => rfl
    | _ =>
      simp only [multiply, Heap.multiply, Value.tag, Heap.items?]
      exact run_ofExcept _

lemma run_binary : (binary op a b).run h = (h.binary op a b).inHeap h := by
  cases op with
  | add => exact run_add
  | sub => exact run_subtract
  | mul => exact run_multiply
  | div | floorDiv | mod | pow => exact run_ofExcept (Value.arithmetic _ a b)
  | index => exact run_ofExcept (h.index a b)
  | and_ => exact run_ofExcept (h.and_ a b)
  | or_ => exact run_ofExcept (h.or_ a b)
  | eq | ne | lt | gt | le | ge =>
    refine (run_ofExcept_bind (h.compare _ a b) _).trans ?_
    simp only [Heap.binary]
    cases h.compare _ a b <;> rfl

lemma run_eq_ok {v : Value} {h' : Heap} : (binary op a b).run h = (.ok v, h') ↔ h.binary op a b = .ok (v, h') := by
  rw [run_binary]
  exact Operated.inHeap_eq_ok

end Cells

lemma State.applyBinary_eq (s : State) (op : BinaryOp) (l r : Value) (span : Span) (ctx : Context) :
    s.applyBinary op l r span ctx = match s.world.heap.binary op l r with
      | .ok (v, h) => (s.setHeap h).value v
      | .error f => s.fail f span ctx := by
  unfold applyBinary
  rw [Cells.run_binary]
  cases s.world.heap.binary op l r <;> rfl

end ScriptMachine
