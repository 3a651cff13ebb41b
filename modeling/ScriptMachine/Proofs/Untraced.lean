import ScriptMachine.Proofs.Policy.Values
import ScriptMachine.Proofs.Spelling

/-! Values and names without what is there for tracebacks only: the spans of syntax trees, and the names and callers of
contexts. -/

namespace ScriptMachine

open List

namespace Dict

variable {α β : Type} {f : α → β} {d extra : Dict α} {key : String} {v : α}

def onValues (f : α → β) (d : Dict α) : Dict β := d.map fun e => (e.1, f e.2)

@[simp] lemma onValues_nil : onValues f [] = [] := rfl

@[simp] lemma onValues_cons {e : String × α} : onValues f (e :: d) = (e.1, f e.2) :: onValues f d := rfl

@[simp] lemma get?_onValues : (d.onValues f).get? key = (d.get? key).map f := by
  induction d with
  | nil => rfl
  | cons e d ih =>
    by_cases h : e.1 = key
    · simp [get?, h]
    · simpa [get?, h] using ih

@[simp] lemma has_onValues : (d.onValues f).has key = d.has key := by simp [has]

lemma insert_onValues : (d.onValues f).insert key (f v) = (d.insert key v).onValues f := by
  induction d with
  | nil => rfl
  | cons e d ih =>
    by_cases h : key = e.1
    · simp [insert, h]
    · by_cases hlt : key < e.1
      · simp [insert, h, hlt]
      · simp [insert, h, hlt, ih]

lemma erase_onValues : (d.onValues f).erase key = (d.erase key).onValues f := by
  simp only [erase, onValues, filter_map]
  rfl

lemma union_onValues : (d.onValues f).union (extra.onValues f) = (d.union extra).onValues f := by
  induction extra generalizing d with
  | nil => rfl
  | cons e extra ih =>
    have hfirst : (d.onValues f).insert e.1 (f e.2) = (d.insert e.1 e.2).onValues f := insert_onValues
    rw [onValues_cons, union, foldl_cons, hfirst]
    exact ih

@[simp] lemma keys_onValues : (d.onValues f).keys = d.keys := by simp [keys, onValues]

@[simp] lemma values_onValues : (d.onValues f).values = d.values.map f := by simp [values, onValues]

@[simp] lemma length_onValues : (d.onValues f).length = d.length := by simp [onValues]

@[simp] lemma isEmpty_onValues : (d.onValues f).isEmpty = d.isEmpty := by simp [onValues]

end Dict

def Context.untraced (c : Context) : Context := { c with name := "", callers := [] }

def Routine.untraced (r : Routine) : Routine := ⟨unplacedParams r.params, r.body.unplaced, r.autoReturn, r.isAsync⟩

def Closure.untraced (c : Closure) : Closure := ⟨c.name, c.routine.untraced, c.context.untraced⟩

def Namespace.untraced (ns : Namespace) : Namespace := ⟨ns.name, unplacedNodes ns.body, ns.context.untraced⟩

mutual

/-- The value with all functions and namespaces in it without their places. -/
def Value.untraced : Value → Value
  | .list items => .list (untracedItems items)
  | .map entries => .map (untracedEntries entries)
  | .function id closure => .function id closure.untraced
  | .namespace_ id ns => .namespace_ id ns.untraced
  | .nil => .nil
  | .bool b => .bool b
  | .int n => .int n
  | .float x => .float x
  | .decimal q => .decimal q
  | .str s => .str s
  | .bytes bs => .bytes bs
  | .sharedList cell => .sharedList cell
  | .sharedMap cell => .sharedMap cell
  | .builtin b => .builtin b
  | .coroutine id name => .coroutine id name
  | .channel id => .channel id
  | .coChannel id => .coChannel id
  | .thread number => .thread number
  | .pool id workers => .pool id workers
  | .future id => .future id
  | .file name path => .file name path

def untracedItems : List Value → List Value
  | [] => []
  | v :: rest => v.untraced :: untracedItems rest

def untracedEntries : List (String × Value) → List (String × Value)
  | [] => []
  | (key, v) :: rest => (key, v.untraced) :: untracedEntries rest

end

abbrev untracedValues (vs : List Value) : List Value := vs.map Value.untraced

abbrev untracedDict (d : Dict Value) : Dict Value := d.onValues Value.untraced

def Heap.untraced (h : Heap) : Heap := ⟨h.lists.map untracedValues, h.maps.map untracedDict⟩

def Tables.untraced (t : Tables) : Tables := ⟨t.tables.map untracedDict, t.escapes⟩

section values

variable {v w : Value} {vs : List Value} {d : Dict Value}

lemma untracedItems_eq_map (vs : List Value) : untracedItems vs = vs.map Value.untraced := by
  induction vs with
  | nil => rfl
  | cons v vs ih => rw [untracedItems, ih, map_cons]

lemma untracedEntries_eq_onValues (d : Dict Value) : untracedEntries d = d.onValues Value.untraced := by
  induction d with
  | nil => rfl
  | cons e d ih => rw [untracedEntries, ih, Dict.onValues_cons]

@[simp] lemma Value.untraced_list : (Value.list vs).untraced = .list (untracedValues vs) := by
  rw [Value.untraced, untracedItems_eq_map]

@[simp] lemma Value.untraced_map : (Value.map d).untraced = .map (untracedDict d) := by
  rw [Value.untraced, untracedEntries_eq_onValues]

@[simp] lemma Context.untraced_untraced (c : Context) : c.untraced.untraced = c.untraced := rfl

@[simp] lemma Closure.untraced_untraced (c : Closure) : c.untraced.untraced = c.untraced := by
  simp [Closure.untraced, Routine.untraced, unplacedParams_unplacedParams, Node.unplaced_unplaced]

@[simp] lemma Namespace.untraced_untraced (ns : Namespace) : ns.untraced.untraced = ns.untraced := by
  simp [Namespace.untraced, unplacedNodes_unplacedNodes]

mutual

theorem Value.untraced_untraced (v : Value) : v.untraced.untraced = v.untraced := by
  cases v with
  | list items => rw [Value.untraced, Value.untraced, untracedItems_untracedItems items]
  | map entries => rw [Value.untraced, Value.untraced, untracedEntries_untracedEntries entries]
  | function id closure => rw [Value.untraced, Value.untraced, Closure.untraced_untraced]
  | namespace_ id ns => rw [Value.untraced, Value.untraced, Namespace.untraced_untraced]
  | _ => rfl

theorem untracedItems_untracedItems (vs : List Value) : untracedItems (untracedItems vs) = untracedItems vs := by
  cases vs with
  | nil => rfl
  | cons v rest => rw [untracedItems, untracedItems, Value.untraced_untraced v, untracedItems_untracedItems rest]

theorem untracedEntries_untracedEntries (es : List (String × Value)) :
    untracedEntries (untracedEntries es) = untracedEntries es := by
  cases es with
  | nil => rfl
  | cons e rest =>
    obtain ⟨key, v⟩ := e
    rw [untracedEntries, untracedEntries, Value.untraced_untraced v, untracedEntries_untracedEntries rest]

end

attribute [simp] Value.untraced_untraced

@[simp] lemma untracedValues_untracedValues (vs : List Value) :
    untracedValues (untracedValues vs) = untracedValues vs := by
  simp [untracedValues, Function.comp_def]

@[simp] lemma untracedDict_untracedDict (d : Dict Value) : untracedDict (untracedDict d) = untracedDict d := by
  simp [untracedDict, Dict.onValues, Function.comp_def]

@[simp] lemma Value.tag_untraced (v : Value) : v.untraced.tag = v.tag := by cases v <;> rfl

@[simp] lemma Value.isCallable_untraced (v : Value) : v.untraced.isCallable = v.isCallable := by cases v <;> rfl

@[simp] lemma Value.isNil_untraced (v : Value) : v.untraced.isNil = v.isNil := by cases v <;> rfl

@[simp] lemma Value.isShared_untraced (v : Value) : v.untraced.isShared = v.isShared := by cases v <;> rfl

end values

lemma getD_map {α β : Type} {f : α → β} {xs : Array α} {i : Nat} {a : α} {b : β} (h : f a = b) :
    (xs.map f).getD i b = f (xs.getD i a) := by
  simp only [Array.getD_eq_getD_getElem?, Array.getElem?_map, ← h, Option.getD_map]

lemma modify_map {α : Type} {f g g' : α → α} {xs : Array α} {i : Nat} (h : ∀ a, g' (f a) = f (g a)) :
    (xs.map f).modify i g' = (xs.modify i g).map f := by
  apply Array.ext_getElem?
  intro j
  simp only [Array.getElem?_modify, Array.getElem?_map]
  split
  · cases xs[j]? with
    | none => rfl
    | some a => exact congrArg some (h a)
  · rfl

namespace Heap

variable {h : Heap} {a b v : Value} {items : List Value} {entries : Dict Value} {cell : Nat}

@[simp] lemma untraced_untraced (h : Heap) : h.untraced.untraced = h.untraced := by
  simp [untraced, Function.comp_def]

@[simp] lemma list_untraced : h.untraced.list cell = untracedValues (h.list cell) := getD_map rfl

@[simp] lemma map_untraced : h.untraced.map cell = untracedDict (h.map cell) := getD_map rfl

@[simp] lemma items?_untraced : h.untraced.items? v.untraced = (h.items? v).map untracedValues := by
  cases v with
  | list items => rw [Value.untraced_list]; rfl
  | sharedList cell => exact congrArg some list_untraced
  | _ => rfl

@[simp] lemma entries?_untraced : h.untraced.entries? v.untraced = (h.entries? v).map untracedDict := by
  cases v with
  | map entries => rw [Value.untraced_map]; rfl
  | sharedMap cell => exact congrArg some map_untraced
  | _ => rfl

@[simp] lemma truthy_untraced : h.untraced.truthy v.untraced = h.truthy v := by
  cases v with
  | list | map => simp [truthy]
  | sharedList | sharedMap => simp [Value.untraced, truthy]
  | _ => rfl

abbrev bare (r : Value × Heap) : Value × Heap := (r.1.untraced, r.2.untraced)

lemma putItems_untraced : h.untraced.putItems (untracedValues items) v.untraced = bare (h.putItems items v) := by
  cases v with
  | sharedList cell =>
    simp [Value.untraced, putItems, setList, bare, untraced]
  | list | map => simp [putItems, bare]
  | _ => simp [Value.untraced, putItems, bare]

lemma putEntries_untraced :
    h.untraced.putEntries (untracedDict entries) v.untraced = bare (h.putEntries entries v) := by
  cases v with
  | sharedMap cell =>
    simp [Value.untraced, putEntries, setMap, bare, untraced]
  | list | map => simp [putEntries, bare]
  | _ => simp [Value.untraced, putEntries, bare]

lemma allocList_untraced : h.untraced.allocList (untracedValues items) = bare (h.allocList items) := by
  simp [allocList, bare, untraced, Value.untraced]

lemma allocMap_untraced : h.untraced.allocMap (untracedDict entries) = bare (h.allocMap entries) := by
  simp [allocMap, bare, untraced, Value.untraced]

mutual

theorem viewWith_untraced (h : Heap) {inner inner' : Value → Value} (hi : ∀ v, inner' v.untraced = (inner v).untraced)
    (v : Value) : h.untraced.viewWith inner' v.untraced = (h.viewWith inner v).untraced := by
  cases v with
  | list items => rw [Value.untraced, viewWith, viewWith, Value.untraced, viewItems_untraced h hi items]
  | map entries => rw [Value.untraced, viewWith, viewWith, Value.untraced, viewEntries_untraced h hi entries]
  | sharedList cell => simp [Value.untraced, viewWith, Function.comp_def, hi]
  | sharedMap cell =>
    simp [Value.untraced, viewWith, Dict.onValues, Function.comp_def, hi]
  | _ => rfl

theorem viewItems_untraced (h : Heap) {inner inner' : Value → Value}
    (hi : ∀ v, inner' v.untraced = (inner v).untraced) (items : List Value) :
    h.untraced.viewItems inner' (untracedItems items) = untracedItems (h.viewItems inner items) := by
  cases items with
  | nil => rfl
  | cons v rest =>
    rw [untracedItems, viewItems, viewItems, untracedItems, viewWith_untraced h hi v, viewItems_untraced h hi rest]

theorem viewEntries_untraced (h : Heap) {inner inner' : Value → Value}
    (hi : ∀ v, inner' v.untraced = (inner v).untraced) (entries : List (String × Value)) :
    h.untraced.viewEntries inner' (untracedEntries entries) = untracedEntries (h.viewEntries inner entries) := by
  cases entries with
  | nil => rfl
  | cons e rest =>
    obtain ⟨key, v⟩ := e
    rw [untracedEntries, viewEntries, viewEntries, untracedEntries, viewWith_untraced h hi v,
      viewEntries_untraced h hi rest]

end

lemma viewTo_untraced (depth : Nat) : h.untraced.viewTo depth v.untraced = (h.viewTo depth v).untraced := by
  induction depth generalizing v with
  | zero => exact @viewWith_untraced h id id (fun _ => rfl) v
  | succ depth ih => exact viewWith_untraced h (fun _ => ih) v

@[simp] lemma view_untraced : h.untraced.view v.untraced = (h.view v).untraced := by
  have hsize : h.untraced.lists.size + h.untraced.maps.size = h.lists.size + h.maps.size := by simp [untraced]
  rw [view, hsize, viewTo_untraced, view]

end Heap

mutual

theorem Value.shown_untraced (quoted : Bool) (v : Value) : v.untraced.shown quoted = v.shown quoted := by
  cases v with
  | list items => exact congrArg (fun texts => "[" ++ commaList texts ++ "]") (shownItems_untraced items)
  | map entries => exact congrArg (fun texts => "\x7b" ++ commaList texts ++ "\x7d") (shownEntries_untraced entries)
  | _ => rfl

theorem Value.shownItems_untraced (items : List Value) :
    Value.shownItems (untracedItems items) = Value.shownItems items := by
  cases items with
  | nil => rfl
  | cons v rest => exact congrArg₂ List.cons (Value.shown_untraced true v) (shownItems_untraced rest)

theorem Value.shownEntries_untraced (entries : List (String × Value)) :
    Value.shownEntries (untracedEntries entries) = Value.shownEntries entries := by
  cases entries with
  | nil => rfl
  | cons e rest =>
    obtain ⟨key, v⟩ := e
    exact congrArg₂ (fun text texts => (Text.quote key ++ ": " ++ text) :: texts) (Value.shown_untraced true v)
      (shownEntries_untraced rest)

end

@[simp] lemma Heap.text_untraced {h : Heap} {v : Value} : h.untraced.text v.untraced = h.text v := by
  rw [Heap.text, Heap.view_untraced, Value.shown_untraced, Heap.text]

@[simp] lemma Heap.repr_untraced {h : Heap} {v : Value} : h.untraced.repr v.untraced = h.repr v := by
  rw [Heap.repr, Heap.view_untraced, Value.shown_untraced, Heap.repr]

namespace Value

variable {a b : Value}

@[simp] lemma float?_untraced : a.untraced.float? = a.float? := by cases a <;> rfl

@[simp] lemma promote_untraced : promote a.untraced b.untraced = promote a b := by
  cases a with
  | int n => cases b <;> rfl
  | _ => cases b <;> rfl

@[simp] lemma relate_untraced : relate a.untraced b.untraced = relate a b := by
  cases a <;> cases b <;> rfl

@[simp] lemma arithmetic_untraced {op : BinaryOp} : arithmetic op a.untraced b.untraced = arithmetic op a b := by
  simp only [arithmetic, isNil_untraced, promote_untraced, tag_untraced]

end Value

mutual

theorem Value.same_untraced (a b : Value) : a.untraced.same b.untraced = a.same b := by
  cases a with
  | list items => cases b with
    | list others => exact sameItems_untraced items others
    | _ => rfl
  | map entries => cases b with
    | map others =>
      rw [Value.untraced, Value.untraced, Value.same, Value.same, sameEntries_untraced entries others,
        untracedEntries_eq_onValues, untracedEntries_eq_onValues, Dict.length_onValues, Dict.length_onValues]
    | _ => rfl
  | _ => cases b <;> rfl

theorem Value.sameItems_untraced (items others : List Value) :
    Value.sameItems (untracedItems items) (untracedItems others) = Value.sameItems items others := by
  cases items with
  | nil => cases others <;> rfl
  | cons v rest => cases others with
    | nil => rfl
    | cons w others => exact congrArg₂ (· && ·) (Value.same_untraced v w) (sameItems_untraced rest others)

theorem Value.sameEntries_untraced (entries others : List (String × Value)) :
    Value.sameEntries (untracedEntries entries) (untracedEntries others) = Value.sameEntries entries others := by
  cases entries with
  | nil => rfl
  | cons e rest =>
    obtain ⟨key, v⟩ := e
    have hrest := sameEntries_untraced rest others
    have hget : Dict.get? (untracedEntries others) key = (Dict.get? others key).map Value.untraced := by
      rw [untracedEntries_eq_onValues, Dict.get?_onValues]
    rw [untracedEntries, Value.sameEntries, Value.sameEntries, hget, hrest]
    cases Dict.get? others key with
    | none => rfl
    | some w => exact congrArg (· && Value.sameEntries rest others) (Value.same_untraced v w)

end

def dataContents : Contents where
  closure _ := False
  space _ _ := False
  deferred _ _ := False
  place _ _ := True
  failure _ := True

mutual

theorem Value.untraced_of_data (v : Value) (h : dataContents.value v) : v.untraced = v := by
  cases v with
  | list items => exact congrArg Value.list (untracedItems_of_data items h)
  | map entries => exact congrArg Value.map (untracedEntries_of_data entries h)
  | function | namespace_ => exact h.elim
  | _ => rfl

theorem untracedItems_of_data (items : List Value) (h : dataContents.items_ items) : untracedItems items = items := by
  cases items with
  | nil => rfl
  | cons v rest => exact congrArg₂ List.cons (Value.untraced_of_data v h.1) (untracedItems_of_data rest h.2)

theorem untracedEntries_of_data (entries : List (String × Value)) (h : dataContents.entries_ entries) :
    untracedEntries entries = entries := by
  cases entries with
  | nil => rfl
  | cons e rest =>
    obtain ⟨key, v⟩ := e
    exact congrArg₂ (fun v rest => (key, v) :: rest) (Value.untraced_of_data v h.1) (untracedEntries_of_data rest h.2)

end

lemma map_untraced_of_gives {r : Except Fault Value} (h : Gives dataContents.value r) : r.map Value.untraced = r := by
  cases r with
  | error f => rfl
  | ok v => exact congrArg Except.ok (Value.untraced_of_data v (h v rfl))

lemma repeated_map {α β : Type} {f : α → β} {xs : List α} (n : Nat) :
    repeated (xs.map f) n = (repeated xs n).map f := by
  induction n with
  | zero => rfl
  | succ n ih => simp only [repeated, ih, map_append]

namespace Heap

variable {op : BinaryOp} {name : String} {h : Heap} {a b key v : Value} {items : List Value}

@[simp] lemma equal_untraced : h.untraced.equal a.untraced b.untraced = h.equal a b := by
  rw [equal, view_untraced, view_untraced, Value.same_untraced, equal]

@[simp] lemma compare_untraced : h.untraced.compare op a.untraced b.untraced = h.compare op a b := by
  simp only [compare, Value.isNil_untraced, equal_untraced, Value.relate_untraced, Value.tag_untraced]

@[simp] lemma logical_untraced : h.untraced.logical v.untraced = h.logical v := by
  simp only [logical, Value.isNil_untraced, truthy_untraced]

lemma unchanged_untraced {r r' : Except Fault Value} (hr : r' = r.map Value.untraced) :
    h.untraced.unchanged r' = (h.unchanged r).map bare := by
  subst hr
  cases r <;> rfl

lemma arithmetic_unchanged :
    h.untraced.unchanged (Value.arithmetic op a.untraced b.untraced) =
    (h.unchanged (Value.arithmetic op a b)).map bare :=
  unchanged_untraced (by rw [Value.arithmetic_untraced, map_untraced_of_gives Contents.gives_arithmetic])

lemma ok_putItems {items' : List Value} (hi : items' = untracedValues items) :
    Except.ok (h.untraced.putItems items' v.untraced) = (Except.ok (h.putItems items v) : Operated).map bare := by
  rw [hi, putItems_untraced]
  rfl

lemma ok_putEntries {entries entries' : Dict Value} (he : entries' = untracedDict entries) :
    Except.ok (h.untraced.putEntries entries' v.untraced) = (Except.ok (h.putEntries entries v) : Operated).map
    bare := by
  rw [he, putEntries_untraced]
  rfl

lemma add_untraced : h.untraced.add a.untraced b.untraced = (h.add a b).map bare := by
  unfold add
  rw [items?_untraced, entries?_untraced, entries?_untraced, Value.tag_untraced, Value.tag_untraced]
  cases h.items? a with
  | some items => exact ok_putItems (by simp)
  | none => cases h.entries? a with
    | some entries => cases h.entries? b with
      | some extra => exact ok_putEntries Dict.union_onValues
      | none => rfl
    | none => cases a with
      | str | bytes => cases b <;> rfl
      | _ => exact arithmetic_unchanged

lemma subtract_untraced : h.untraced.subtract a.untraced b.untraced = (h.subtract a b).map bare := by
  unfold subtract
  rw [items?_untraced, Value.tag_untraced, Value.tag_untraced]
  cases h.items? a with
  | some items => cases b with
    | int index =>
      simp only [Option.map_some, Value.untraced, length_map]
      cases position? index items.length with
      | some p => exact ok_putItems (eraseIdx_map ..)
      | none => rfl
    | _ => rfl
  | none => cases a.tag with
    | str | hashmap => rfl
    | _ => exact arithmetic_unchanged

lemma multiply_untraced : h.untraced.multiply a.untraced b.untraced = (h.multiply a b).map bare := by
  unfold multiply
  rw [items?_untraced, items?_untraced]
  cases h.items? a with
  | some items => cases h.items? b with
    | some extra => exact ok_putItems (by simp)
    | none => cases b with
      | int count =>
        simp only [Option.map_some, Option.map_none, Value.untraced, length_map]
        cases repeatCount items.length count with
        | error f => rfl
        | ok times => exact ok_putItems (repeated_map times)
      | _ =>
        simp only [Option.map_some, Option.map_none, Value.tag_untraced]
        rfl
  | none => cases a with
    | str s => cases b with
      | int count =>
        simp only [Option.map_none, Value.untraced]
        cases repeatCount s.utf8ByteSize count <;> rfl
      | _ => rfl
    | map | sharedMap => cases b <;> rfl
    | _ => exact arithmetic_unchanged

lemma element_untraced {i : Int64} :
    element name i (untracedValues items) id = (element name i items id).map Value.untraced := by
  simp only [element, length_map]
  cases position? i items.length with
  | none => rfl
  | some p =>
    simp only [Option.bind_some, getElem?_map]
    cases items[p]? <;> rfl

lemma element_of_data {α : Type} {i : Int64} {xs : List α} {wrap : α → Value} (hw : ∀ x, (wrap x).untraced = wrap x) :
    (element name i xs wrap).map Value.untraced = element name i xs wrap := by
  unfold element
  split
  · exact congrArg Except.ok (hw _)
  · rfl

lemma index_untraced : h.untraced.index a.untraced key.untraced = (h.index a key).map Value.untraced := by
  unfold index
  rw [entries?_untraced, items?_untraced, Value.tag_untraced, Value.tag_untraced]
  cases h.entries? a with
  | some entries => cases key with
    | str name =>
      simp only [Option.map_some, Value.untraced, Dict.get?_onValues, Dict.length_onValues]
      cases entries.get? name <;> rfl
    | _ => rfl
  | none => cases h.items? a with
    | some items => cases key with
      | int i => exact element_untraced
      | _ => rfl
    | none => cases a with
      | str | bytes => cases key with
        | int i => exact (element_of_data fun _ => rfl).symm
        | _ => rfl
      | _ => rfl

lemma setIndex_untraced :
    h.untraced.setIndex a.untraced key.untraced v.untraced = (h.setIndex a key v).map bare := by
  unfold setIndex
  rw [items?_untraced, entries?_untraced, Value.tag_untraced, Value.tag_untraced]
  cases h.items? a with
  | some items => cases key with
    | int i =>
      simp only [Option.map_some, Value.untraced, length_map]
      cases position? i items.length with
      | some p => exact ok_putItems map_set.symm
      | none => rfl
    | _ => rfl
  | none => cases h.entries? a with
    | some entries => cases key with
      | str name => exact ok_putEntries Dict.insert_onValues
      | _ => rfl
    | none => cases key <;> rfl

lemma binary_untraced : h.untraced.binary op a.untraced b.untraced = (h.binary op a b).map bare := by
  have hlogic {r : Except Fault Bool} : h.untraced.unchanged (r.map .bool) = (h.unchanged (r.map .bool)).map bare := by
    cases r <;> rfl
  cases op with
  | add => exact add_untraced
  | sub => exact subtract_untraced
  | mul => exact multiply_untraced
  | div | floorDiv | mod | pow => exact arithmetic_unchanged
  | index => exact unchanged_untraced index_untraced
  | eq | ne | lt | gt | le | ge =>
    simp only [binary, compare_untraced]
    exact hlogic
  | and_ =>
    simp only [binary, and_, logical_untraced]
    refine unchanged_untraced ?_
    cases h.logical a with
    | error f => rfl
    | ok x => cases x with
      | false => rfl
      | true => cases h.logical b <;> rfl
  | or_ =>
    simp only [binary, or_, logical_untraced]
    refine unchanged_untraced ?_
    cases h.logical a with
    | error f => rfl
    | ok x => cases x with
      | true => rfl
      | false => cases h.logical b <;> rfl

lemma unary_untraced {op : UnaryOp} : h.untraced.unary op a.untraced = (h.unary op a).map Value.untraced := by
  rw [map_untraced_of_gives Contents.gives_unary]
  cases op with
  | plus | minus => cases a <;> rfl
  | not_ => simp only [unary, not_, logical_untraced]

end Heap

namespace Tables

variable {t : Tables} {id : Nat} {name : String} {v : Value} {chain : List Nat}

@[simp] lemma untraced_untraced (t : Tables) : t.untraced.untraced = t.untraced := by
  simp [untraced, Function.comp_def]

@[simp] lemma table_untraced : t.untraced.table id = untracedDict (t.table id) := getD_map rfl

lemma set_untraced : t.untraced.set id name v.untraced = (t.set id name v).untraced :=
  congrArg (Tables.mk · t.escapes) (modify_map (g := (Dict.insert · name v)) fun _ => Dict.insert_onValues)

lemma erase_untraced : t.untraced.erase id name = (t.erase id name).untraced :=
  congrArg (Tables.mk · t.escapes) (modify_map (g := (Dict.erase · name)) fun _ => Dict.erase_onValues)

lemma find?_untraced : t.untraced.find? chain name = (t.find? chain name).map Value.untraced := by
  induction chain with
  | nil => rfl
  | cons id chain ih =>
    simp only [find?, findSome?_cons, table_untraced, Dict.get?_onValues] at ih ⊢
    cases (t.table id).get? name with
    | none => exact ih
    | some v => rfl

lemma findOuter?_untraced : t.untraced.findOuter? chain name = t.findOuter? chain name := by
  simp only [findOuter?, table_untraced, Dict.has_onValues]

end Tables

namespace Context

variable {c : Context} {t : Tables} {name : String} {v : Value}

lemma lookup_untraced : c.untraced.lookup t.untraced name = (c.lookup t name).map Value.untraced := by
  have hbinding : c.untraced.binding t.untraced name = c.binding t name := rfl
  unfold lookup
  rw [hbinding]
  cases hb : c.binding t name with
  | here =>
    simp only [Tables.find?_untraced, Context.untraced]
    cases t.find? c.scope name <;> rfl
  | global | outer => exact Tables.find?_untraced

lemma assign_untraced : c.untraced.assign t.untraced name v.untraced = (c.assign t name v).untraced := by
  unfold assign
  rw [← Tables.set_untraced, ← Tables.set_untraced]
  rfl

lemma remove_untraced :
    c.untraced.remove t.untraced name = ((c.remove t name).1.map Value.untraced, (c.remove t name).2.untraced) := by
  have hhome : c.untraced.home t.untraced name = c.home t name := rfl
  simp only [remove, hhome, Tables.table_untraced, Dict.get?_onValues, ← Tables.erase_untraced]
  rfl

lemma declare_untraced {parent : Bool} :
    c.untraced.declare t.untraced name parent =
      (c.declare t name parent).map fun r => (r.1, r.2.untraced) := by
  have hglobal : c.untraced.isGlobal = c.isGlobal := rfl
  have hroot : c.untraced.root = c.root := rfl
  have hscope : c.untraced.scope = c.scope := rfl
  unfold declare
  rw [hglobal, hroot, hscope, Tables.findOuter?_untraced, Tables.table_untraced, Dict.has_onValues]
  cases c.isGlobal with
  | true => rfl
  | false => cases parent with
    | true => cases t.findOuter? c.scope name <;> rfl
    | false => cases (t.table c.root).has name <;> rfl

variable {other : String} {parent parent' : Option Context} {entry entry' : Span}

lemma nest_untraced :
    (nest name c.untraced parent entry t.untraced).1.untraced = (nest other c parent' entry' t).1.untraced ∧
      (nest name c.untraced parent entry t.untraced).2 = (nest other c parent' entry' t).2.untraced := by
  simp [nest, untraced, Tables.alloc, Tables.allocEscapes, Tables.untraced]

lemma ofModule_untraced {source : Source} {globals : Nat} :
    (ofModule name source globals parent entry t.untraced).1.untraced =
        (ofModule other source globals parent' entry' t).1.untraced ∧
      (ofModule name source globals parent entry t.untraced).2 =
        (ofModule other source globals parent' entry' t).2.untraced := by
  simp [ofModule, untraced, Tables.alloc, Tables.allocEscapes, Tables.untraced]

end Context

def Filled.untraced (p : Filled) : Filled := { p with value := p.value.map Value.untraced }

section arguments

variable {params : List (String × Slot)} {args : List Value} {kwargs : Dict Value} {filled : List Filled}

lemma fillPositional_untraced {open_ : Bool} : fillPositional open_ params (untracedValues args) =
      ((fillPositional open_ params args).1.map Filled.untraced, untracedValues
        (fillPositional open_ params args).2) := by
  induction params generalizing open_ args with
  | nil => rfl
  | cons p params ih =>
    obtain ⟨name, slot⟩ := p
    have hfilled {open_ : Bool} : (fillPositional open_ params []).1.map Filled.untraced =
        (fillPositional open_ params []).1 := (congrArg Prod.fst (@ih [] open_)).symm
    have hleft {open_ : Bool} : untracedValues
      (fillPositional open_ params []).2 = (fillPositional open_ params []).2 :=
      (congrArg Prod.snd (@ih [] open_)).symm
    cases slot with
    | rest => simp [fillPositional, hfilled, hleft, Filled.untraced]
    | required | optional | keywords =>
      cases args with
      | nil => simp [fillPositional, hfilled, hleft, Filled.untraced]
      | cons arg args =>
        have hsome := @ih (arg :: args) open_
        simp only [untracedValues, map_cons] at hsome
        simp only [untracedValues, map_cons, fillPositional]
        split
        · simp [ih, Filled.untraced]
        · simp [hsome, Filled.untraced]

def Placed.untraced : Placed → Placed
  | .filled params => .filled (params.map Filled.untraced)
  | .taken => .taken
  | .unknown => .unknown

lemma placeKeyword_untraced {key : String} {v : Value} :
    placeKeyword key v.untraced (filled.map Filled.untraced) = (placeKeyword key v filled).untraced := by
  induction filled with
  | nil => rfl
  | cons p filled ih =>
    have hname : p.untraced.name = p.name := rfl
    have hslot : p.untraced.slot = p.slot := rfl
    simp only [map_cons, placeKeyword, hname, hslot]
    split
    · obtain ⟨name, slot, value⟩ := p
      cases value <;> rfl
    · rw [ih]
      cases placeKeyword key v filled <;> rfl

lemma placeKeywords_untraced {function : String} {collects : Bool} {collected : Dict Value} :
    placeKeywords function collects (untracedDict kwargs) (filled.map Filled.untraced) (untracedDict collected) =
      (placeKeywords function collects kwargs filled collected).map fun r =>
        (r.1.map Filled.untraced, untracedDict r.2) := by
  induction kwargs generalizing filled collected with
  | nil => rfl
  | cons e kwargs ih =>
    obtain ⟨key, v⟩ := e
    simp only [untracedDict, Dict.onValues_cons, placeKeywords, placeKeyword_untraced]
    cases placeKeyword key v filled with
    | filled filled => exact ih
    | taken => rfl
    | unknown => cases collects with
      | true =>
        simp only [Placed.untraced, if_pos, Dict.insert_onValues]
        exact ih
      | false => rfl

lemma fillKeywords_untraced {collected : Dict Value} :
    fillKeywords (untracedDict collected) (filled.map Filled.untraced) =
      (fillKeywords collected filled).map Filled.untraced := by
  induction filled with
  | nil => rfl
  | cons p filled ih =>
    have hslot : p.untraced.slot = p.slot := rfl
    simp only [map_cons, fillKeywords, hslot]
    split
    · simp [Filled.untraced]
    · rw [map_cons, ih]

lemma firstMissing?_untraced : firstMissing? (filled.map Filled.untraced) = firstMissing? filled := by
  simp only [firstMissing?, find?_map, Option.map_map]
  have hmissing : (fun p : Filled => decide (p.slot = .required ∧ p.value.isNone = true)) ∘ Filled.untraced =
      fun p => decide (p.slot = .required ∧ p.value.isNone = true) := by
    funext p
    obtain ⟨name, slot, value⟩ := p
    cases value <;> rfl
  rw [hmissing]
  rfl

lemma bindArguments_untraced {function : String} :
    bindArguments function params (untracedValues args) (untracedDict kwargs) =
      (bindArguments function params args kwargs).map (List.map (Option.map Value.untraced)) := by
  unfold bindArguments
  rw [fillPositional_untraced]
  simp only [isEmpty_map, length_map]
  split
  · rfl
  · have hplaced := @placeKeywords_untraced kwargs (fillPositional true params args).1 function
      (params.any (·.2 = .keywords)) []
    simp only [untracedDict, Dict.onValues_nil] at hplaced
    rw [hplaced]
    cases placeKeywords function (params.any (·.2 = .keywords)) kwargs (fillPositional true params args).1 [] with
    | error f => rfl
    | ok r =>
      simp only [Except.map, bind, Except.bind]
      rw [fillKeywords_untraced, firstMissing?_untraced]
      cases firstMissing? (fillKeywords r.2 r.1) with
      | some name => rfl
      | none => simp [Filled.untraced, Function.comp_def]

end arguments

end ScriptMachine
