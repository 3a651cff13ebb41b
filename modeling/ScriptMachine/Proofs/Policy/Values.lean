import ScriptMachine.Proofs.Actions
import ScriptMachine.Proofs.Policy
import ScriptMachine.Proofs.Tables

/-! Values that are allowed: what operators, containers and argument lists make of them. -/

namespace ScriptMachine

open List

section arrays

variable {i : Nat} {α : Type} {p : α → Prop} {xs : Array α}

lemma forall_mem_set {a : α} (h : ∀ x ∈ xs, p x) (ha : p a) : ∀ x ∈ xs.setIfInBounds i a, p x := by
  intro x hx
  rcases Array.mem_or_eq_of_mem_setIfInBounds hx with hx | rfl
  · exact h x hx
  · exact ha

lemma forall_mem_push {a : α} (h : ∀ x ∈ xs, p x) (ha : p a) : ∀ x ∈ xs.push a, p x := Array.forall_mem_push.2 ⟨ha, h⟩

lemma forall_mem_modify {f : α → α} (h : ∀ x ∈ xs, p x) (hf : ∀ x, p x → p (f x)) : ∀ x ∈ xs.modify i f, p x := by
  intro x hx
  obtain ⟨j, hj⟩ := Array.mem_iff_getElem?.1 hx
  rw [Array.getElem?_modify] at hj
  split at hj
  · obtain ⟨y, hy, rfl⟩ := Option.map_eq_some_iff.1 hj
    exact hf y (h y (Array.mem_of_getElem? hy))
  · exact h x (Array.mem_of_getElem? hj)

lemma forall_getD {a : α} (h : ∀ x ∈ xs, p x) (ha : p a) : p (xs.getD i a) := by
  rw [Array.getD_eq_getD_getElem?]
  cases hi : xs[i]? with
  | none => exact ha
  | some x => exact h x (Array.mem_of_getElem? hi)

end arrays

namespace Contents

variable {C : Contents}

section values

variable {key : String} {i : Nat} {v w : Value} {vs ws : List Value} {d e : Dict Value}

lemma items_iff : C.items_ vs ↔ C.values vs := by
  induction vs with
  | nil => simp [items_, values]
  | cons v vs ih => simp [items_, values, ih]

lemma entries_iff : C.entries_ d ↔ C.entries d := by
  induction d with
  | nil => simp [entries_, entries]
  | cons e d ih => simp [entries_, entries, ih]

@[simp] lemma value_list : C.value (.list vs) ↔ C.values vs := by rw [value, items_iff]

@[simp] lemma value_map : C.value (.map d) ↔ C.entries d := by rw [value, entries_iff]

@[simp] lemma values_nil : C.values [] := by simp [values]

@[simp] lemma values_cons : C.values (v :: vs) ↔ C.value v ∧ C.values vs := by simp [values]

@[simp] lemma values_append : C.values (vs ++ ws) ↔ C.values vs ∧ C.values ws := by
  simp [values, or_imp, forall_and]

@[simp] lemma values_reverse : C.values vs.reverse ↔ C.values vs := by simp [values]

@[simp] lemma entries_nil : C.entries [] := by simp [entries]

@[simp] lemma entries_cons {x : String × Value} : C.entries (x :: d) ↔ C.value x.2 ∧ C.entries d := forall_mem_cons

lemma entries_insert (hd : C.entries d) (hv : C.value v) : C.entries (d.insert key v) :=
  Dict.forall_mem_insert hd hv

lemma entries_union (hd : C.entries d) (he : C.entries e) : C.entries (d.union e) := by
  induction e generalizing d with
  | nil => exact hd
  | cons x e ih => exact ih (entries_insert hd (entries_cons.1 he).1) (entries_cons.1 he).2

lemma entries_erase (hd : C.entries d) : C.entries (d.erase key) :=
  fun e he => hd e (mem_of_mem_filter he)

lemma value_of_get? (hd : C.entries d) (h : d.get? key = some v) : C.value v := hd _ (Dict.mem_of_get? h)

lemma entries_keys_values (hd : C.entries d) : C.values d.values := by
  intro v hv
  obtain ⟨e, he, rfl⟩ := mem_map.1 hv
  exact hd e he

lemma values_set (hvs : C.values vs) (hv : C.value v) : C.values (vs.set i v) := by
  intro w hw
  rcases mem_or_eq_of_mem_set hw with hw | rfl
  · exact hvs w hw
  · exact hv

lemma values_eraseIdx (hvs : C.values vs) : C.values (vs.eraseIdx i) :=
  fun w hw => hvs w (mem_of_mem_eraseIdx hw)

lemma values_getD (hvs : C.values vs) : C.value (vs.getD i .nil) := by
  rw [getD_eq_getElem?_getD]
  cases h : vs[i]? with
  | none => trivial
  | some v => exact hvs v (mem_of_getElem? h)

lemma values_repeated {n : Nat} (hvs : C.values vs) : C.values (repeated vs n) := by
  induction n with
  | zero => exact values_nil
  | succ n ih => exact values_append.2 ⟨hvs, ih⟩

end values

section operators

variable {op : BinaryOp} {items : List Value} {entries : Dict Value} {r : Except Fault Value} {h : Heap} {a b v : Value}

lemma items?_value (hh : C.heap h) (ha : C.value a) (hi : h.items? a = some items) : C.values items := by
  cases a with
  | list vs => exact Option.some.inj hi ▸ value_list.1 ha
  | sharedList cell => exact Option.some.inj hi ▸ forall_getD hh.1 values_nil
  | _ => contradiction

lemma entries?_value (hh : C.heap h) (ha : C.value a) (he : h.entries? a = some entries) : C.entries entries := by
  cases a with
  | map d => exact Option.some.inj he ▸ value_map.1 ha
  | sharedMap cell => exact Option.some.inj he ▸ forall_getD hh.2 entries_nil
  | _ => contradiction

def operated (C : Contents) (r : Value × Heap) : Prop := C.value r.1 ∧ C.heap r.2

lemma operated_putItems (hh : C.heap h) (hi : C.values items) : C.operated (h.putItems items a) := by
  cases a with
  | sharedList cell => exact ⟨trivial, forall_mem_set hh.1 hi, hh.2⟩
  | _ => exact ⟨value_list.2 hi, hh⟩

lemma operated_putEntries (hh : C.heap h) (he : C.entries entries) : C.operated (h.putEntries entries a) := by
  cases a with
  | sharedMap cell => exact ⟨trivial, hh.1, forall_mem_set hh.2 he⟩
  | _ => exact ⟨value_map.2 he, hh⟩

lemma operated_allocList (hh : C.heap h) (hi : C.values items) : C.operated (h.allocList items) :=
  ⟨trivial, forall_mem_push hh.1 hi, hh.2⟩

lemma operated_allocMap (hh : C.heap h) (he : C.entries entries) :
    C.operated (h.allocMap entries) := ⟨trivial, hh.1, forall_mem_push hh.2 he⟩

lemma gives_ofChecked {w : Option Int64} : Gives C.value (Value.ofChecked w) := by
  cases w with
  | some => exact .ok trivial
  | none => exact .error

lemma number_of_intOutcome (h : Value.IntOutcome op r) : Gives (State.isNumber · = true) r := by
  cases h with
  | int | float => exact .ok rfl
  | overflow | divisionByZero | moduloByZero | illegal => exact .error

lemma number_arithmeticFloats {x y : Float} : Gives (State.isNumber · = true) (Value.arithmeticFloats op x y) := by
  cases op with
  | add | sub | mul => exact .ok rfl
  | div | floorDiv => exact .ite .error (.ok rfl)
  | mod => exact .ite .error (.ite (.ok rfl) (.ok rfl))
  | pow => exact .ite .error (.ite .error (.ok rfl))
  | _ => exact .error

lemma number_decimalPower {p q : Rat} : Gives (State.isNumber · = true) (Value.decimalPower p q) := by
  refine .ite (.ite .error (.ite .error (.ok rfl))) (.ite .error ?_)
  exact .map_of_forall fun _ => rfl

lemma number_arithmeticDecimals {p q : Rat} : Gives (State.isNumber · = true) (Value.arithmeticDecimals op p q) := by
  cases op with
  | add | sub | mul => exact .ok rfl
  | div | mod => exact .ite .error (.ok rfl)
  | floorDiv =>
    refine .ite .error ?_
    cases Number.word? (p / q).floor with
    | none | some => exact .ok rfl
  | pow => exact number_decimalPower
  | _ => exact .error

lemma number_arithmetic : Gives (State.isNumber · = true) (Value.arithmetic op a b) := by
  refine .ite .error ?_
  split
  · exact .error
  · exact .error
  · exact number_of_intOutcome (Value.outcome_arithmeticInts ..)
  · exact number_arithmeticFloats
  · exact number_arithmeticDecimals

lemma gives_arithmetic : Gives C.value (Value.arithmetic op a b) := by
  intro v hv
  cases v with
  | int | float | decimal => trivial
  | _ => exact absurd (number_arithmetic _ hv) (by simp [State.isNumber])

lemma gives_unary {op : UnaryOp} : Gives C.value (h.unary op a) := by
  cases op with
  | plus => cases a <;> first | exact .ok trivial | exact .error
  | minus => cases a <;> first | exact gives_ofChecked | exact .ok trivial | exact .error
  | not_ => exact .bind fun _ _ => .ok trivial

variable (hh : C.heap h) (ha : C.value a) (hb : C.value b)
include hh

lemma gives_unchanged (hr : Gives C.value r) : Gives C.operated (h.unchanged r) :=
  hr.map fun _ hv => ⟨hv, hh⟩

include ha hb

lemma gives_add : Gives C.operated (h.add a b) := by
  unfold Heap.add
  split
  · rename_i items hi
    exact .ok (operated_putItems hh (values_append.2 ⟨items?_value hh ha hi, values_cons.2 ⟨hb, values_nil⟩⟩))
  · split
    · rename_i entries extra he hx
      exact .ok (operated_putEntries hh (entries_union (entries?_value hh ha he) (entries?_value hh hb hx)))
    · exact .error
    · split
      · exact .ok ⟨trivial, hh⟩
      · exact .ok ⟨trivial, hh⟩
      · exact .error
      · exact .error
      · exact gives_unchanged hh gives_arithmetic

lemma gives_subtract : Gives C.operated (h.subtract a b) := by
  unfold Heap.subtract
  split
  · rename_i items hi
    split
    · split
      · exact .ok (operated_putItems hh (values_eraseIdx (items?_value hh ha hi)))
      · exact .error
    · exact .error
  · split
    · exact .error
    · exact .error
    · exact gives_unchanged hh gives_arithmetic

lemma gives_multiply : Gives C.operated (h.multiply a b) := by
  unfold Heap.multiply
  split
  · rename_i items hi
    have hitems := items?_value hh ha hi
    split
    · rename_i extra hx
      exact .ok (operated_putItems hh (values_append.2 ⟨hitems, items?_value hh hb hx⟩))
    · exact .bind fun times _ => .ok (operated_putItems hh (values_repeated hitems))
    · exact .error
  · split
    · exact .bind fun _ _ => .ok ⟨trivial, hh⟩
    · split
      · exact .error
      · exact .error
      · exact gives_unchanged hh gives_arithmetic

omit hb in
lemma gives_index : Gives C.value (h.index a b) := by
  unfold Heap.index
  split
  · rename_i entries he
    split
    · split
      · rename_i hget
        exact .ok (value_of_get? (entries?_value hh ha he) hget)
      · exact .error
    · exact .error
  · have helement {α : Type} {name : String} {i : Int64} {items : List α} {wrap : α → Value}
        (hw : ∀ x ∈ items, C.value (wrap x)) : Gives C.value (Heap.element name i items wrap) := by
      unfold Heap.element
      split
      · rename_i item hitem
        obtain ⟨p, -, hp⟩ := Option.bind_eq_some_iff.1 hitem
        exact .ok (hw item (mem_of_getElem? hp))
      · exact .error
    split
    · rename_i items _ hi
      exact helement (items?_value hh ha hi)
    · exact helement fun _ _ => trivial
    · exact helement fun _ _ => trivial
    all_goals exact .error

lemma gives_setIndex {key : Value} : Gives C.operated (h.setIndex a key b) := by
  unfold Heap.setIndex
  split
  · rename_i items _ hi
    split
    · exact .ok (operated_putItems hh (values_set (items?_value hh ha hi) hb))
    · exact .error
  · rename_i entries name _ he
    exact .ok (operated_putEntries hh (entries_insert (entries?_value hh ha he) hb))
  all_goals exact .error

lemma gives_binary : Gives C.operated (h.binary op a b) := by
  cases op with
  | add => exact gives_add hh ha hb
  | sub => exact gives_subtract hh ha hb
  | mul => exact gives_multiply hh ha hb
  | div | floorDiv | mod | pow => exact gives_unchanged hh gives_arithmetic
  | index => exact gives_unchanged hh (gives_index hh ha)
  | eq | ne | lt | gt | le | ge =>
    exact gives_unchanged hh (.map_of_forall fun _ => trivial)
  | and_ => exact gives_unchanged hh (.bind fun _ _ => .ite (.bind fun _ _ => .ok trivial) (.ok trivial))
  | or_ => exact gives_unchanged hh (.bind fun _ _ => .ite (.ok trivial) (.bind fun _ _ => .ok trivial))

end operators

section tables

variable {name : String} {v : Value} {t : Tables}

lemma bindings_set {id : Nat} (hb : C.bindings t) (hv : C.value v) :
    C.bindings (t.set id name v) := forall_mem_modify hb fun _ hd => entries_insert hd hv

lemma bindings_erase {id : Nat} (hb : C.bindings t) : C.bindings (t.erase id name) :=
  forall_mem_modify hb fun _ hd => entries_erase hd

lemma bindings_nest {lexical : Context} {parent : Option Context} {entry : Span} (hb : C.bindings t) :
    C.bindings (Context.nest name lexical parent entry t).2 :=
  forall_mem_push (forall_mem_push hb entries_nil) entries_nil

lemma value_of_find? {chain : List Nat} (hb : C.bindings t) (h : t.find? chain name = some v) : C.value v := by
  obtain ⟨id, -, hget⟩ := exists_of_findSome?_eq_some h
  exact value_of_get? (forall_getD hb entries_nil) hget

lemma value_of_lookup {ctx : Context} (hb : C.bindings t) (h : ctx.lookup t name = some v) : C.value v := by
  unfold Context.lookup at h
  split at h
  · rcases Option.or_eq_some_iff.1 h with h | ⟨-, h⟩
    · exact value_of_find? hb h
    · exact value_of_find? hb h
  · exact value_of_find? hb h

end tables

section arguments

variable {params : List Filled} {args : List Value} {kwargs collected : Dict Value} {function : String} {b : Builtin}

def filled (C : Contents) (params : List Filled) : Prop := ∀ p ∈ params, ∀ v ∈ p.value, C.value v

lemma filled_cons {p : Filled} :
    C.filled (p :: params) ↔ (∀ v ∈ p.value, C.value v) ∧ C.filled params := forall_mem_cons

lemma filled_fillPositional {isOpen : Bool} {params : List (String × Slot)} (ha : C.values args) :
    C.filled (fillPositional isOpen params args).1 := by
  fun_induction fillPositional isOpen params args with
  | case1 => exact forall_mem_nil _
  | case2 isOpen name params args filled left hfill ih =>
    rw [hfill] at ih
    exact filled_cons.2 ⟨by simpa using ha, ih values_nil⟩
  | case3 isOpen name slot params arg args hs _ filled left hfill ih =>
    rw [hfill] at ih
    obtain ⟨harg, hargs⟩ := values_cons.1 ha
    exact filled_cons.2 ⟨by simpa using harg, ih hargs⟩
  | case4 isOpen name slot params arg args _ _ filled left hfill ih
  | case5 isOpen name slot params _ filled left hfill ih =>
    rw [hfill] at ih
    exact filled_cons.2 ⟨by simp, ih ha⟩

lemma filled_placeKeyword {key : String} {v : Value} {after : List Filled} (hp : C.filled params) (hv : C.value v)
    (h : placeKeyword key v params = .filled after) : C.filled after := by
  induction params generalizing after with
  | nil => contradiction
  | cons p params ih =>
    obtain ⟨hfirst, hrest⟩ := filled_cons.1 hp
    rw [placeKeyword] at h
    split at h
    · split at h
      · contradiction
      · cases h
        exact filled_cons.2 ⟨by simpa using hv, hrest⟩
    · split at h
      · rename_i hplaced
        cases h
        exact filled_cons.2 ⟨hfirst, ih hrest hplaced⟩
      · rename_i hother
        exact absurd h (hother after)

lemma gives_placeKeywords {collects : Bool} (hk : C.entries kwargs) (hp : C.filled params) (hc : C.entries collected) :
    Gives (fun r => C.filled r.1 ∧ C.entries r.2) (placeKeywords function collects kwargs params collected) := by
  induction kwargs generalizing params collected with
  | nil => exact .ok ⟨hp, hc⟩
  | cons e kwargs ih =>
    obtain ⟨hv, hrest⟩ := entries_cons.1 hk
    rw [placeKeywords]
    split
    · rename_i hplaced
      exact ih hrest (filled_placeKeyword hp hv hplaced) hc
    · exact .error
    · exact .ite (ih hrest hp (entries_insert hc hv)) .error

lemma filled_fillKeywords (hp : C.filled params) (hc : C.entries collected) :
    C.filled (fillKeywords collected params) := by
  induction params with
  | nil => exact hp
  | cons p params ih =>
    obtain ⟨hfirst, hrest⟩ := filled_cons.1 hp
    rw [fillKeywords]
    split
    · exact filled_cons.2 ⟨by simpa using hc, hrest⟩
    · exact filled_cons.2 ⟨hfirst, ih hrest⟩

lemma gives_bindArguments {params : List (String × Slot)} (ha : C.values args) (hk : C.entries kwargs) :
    Gives (fun bound => ∀ v? ∈ bound, ∀ v ∈ v?, C.value v) (bindArguments function params args kwargs) := by
  unfold bindArguments
  have hpositional : C.filled (fillPositional true params args).1 := filled_fillPositional ha
  generalize fillPositional true params args = r at hpositional
  refine .ite .error (.bind fun placed hplaced => ?_)
  obtain ⟨hfilled, hcollected⟩ := gives_placeKeywords hk hpositional entries_nil placed hplaced
  have hall := filled_fillKeywords hfilled hcollected
  dsimp only
  split
  · exact .error
  · apply Gives.ok
    intro v? hv?
    obtain ⟨p, hp, rfl⟩ := mem_map.1 hv?
    exact hall p hp

lemma values_zipWith {bound : List (Option Value)} {params : List (String × Option Value)}
    (hb : ∀ v? ∈ bound, ∀ v ∈ v?, C.value v) (hp : ∀ p ∈ params, ∀ v ∈ p.2, C.value v) :
    C.values (bound.zipWith (fun v param => v.getD (param.2.getD .nil)) params) := by
  induction bound generalizing params with
  | nil => exact values_nil
  | cons v? bound ih =>
    cases params with
    | nil => exact values_nil
    | cons p params =>
      refine values_cons.2 ⟨?_, ih (fun u hu => hb u (.tail _ hu)) fun q hq => hp q (.tail _ hq)⟩
      cases v? with
      | some v => exact hb _ (.head _) v rfl
      | none =>
        obtain ⟨name, default⟩ := p
        cases default with
        | none => trivial
        | some v => exact hp _ (.head _) v rfl

lemma value_default : ∀ p ∈ b.params, ∀ v ∈ p.2, C.value v := by
  cases b <;> simp [Builtin.params, Builtin.required, Builtin.optional, Builtin.passedOn, value, items_, entries_]

lemma gives_bind (ha : C.values args) (hk : C.entries kwargs) : Gives C.values (b.bind args kwargs) :=
  .bind fun bound hbound => .ok (values_zipWith (gives_bindArguments ha hk bound hbound) value_default)

lemma entries_initialGlobals {argv : List String} : C.entries (initialGlobals argv) := by
  refine entries_union entries_nil fun e he => ?_
  simp only [mem_append, mem_map, mem_cons, not_mem_nil, or_false] at he
  rcases he with (⟨b, -, rfl⟩ | ⟨e, -, rfl⟩) | rfl | rfl | rfl | rfl | rfl | rfl | rfl | rfl | rfl
  case inr.inr.inr.inr.inr.inr.inr.inr.inr =>
    refine value_list.2 fun v hv => ?_
    obtain ⟨text, -, rfl⟩ := mem_map.1 hv
    trivial
  all_goals trivial

end arguments

end Contents

end ScriptMachine
