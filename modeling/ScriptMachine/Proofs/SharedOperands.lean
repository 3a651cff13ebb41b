import ScriptMachine.Proofs.Policy.Values

/-! Operators and the cells of shared containers. -/

namespace ScriptMachine

def Value.changedBy (op : BinaryOp) : Value → Bool
  | .sharedList _ => op == .add || op == .sub || op == .mul
  | .sharedMap _ => op == .add
  | _ => false

attribute [local simp] Value.changedBy

lemma Value.isShared_of_changedBy {op : BinaryOp} {v : Value} (h : v.changedBy op = true) : v.isShared = true := by
  cases v with
  | sharedList | sharedMap => rfl
  | _ => simp [changedBy] at h

namespace Heap

variable {cell : Nat} {h h' k : Heap} {op : BinaryOp} {l r v w : Value}

def Holds (h : Heap) : Value → Prop
  | .sharedList cell => cell < h.lists.size
  | .sharedMap cell => cell < h.maps.size
  | _ => True

/-- The value with its own contents: a shared container is replaced by a plain one. -/
def detach (h : Heap) : Value → Value
  | .sharedList cell => .list (h.list cell)
  | .sharedMap cell => .map (h.map cell)
  | v => v

/-- Two heaps with the same cells, and the same contents in all but the cell of one value. -/
structure SameBut (v : Value) (h k : Heap) : Prop where
  lists : k.lists.size = h.lists.size
  maps : k.maps.size = h.maps.size
  list : ∀ cell, v ≠ .sharedList cell → k.list cell = h.list cell
  map : ∀ cell, v ≠ .sharedMap cell → k.map cell = h.map cell

/-- Updates through a value: operators, assignments to its elements, and the built-ins that work on a list in place. -/
inductive Updated : Value → Heap → Value → Heap → Prop
  | refl {v : Value} {h : Heap} : Updated v h v h
  | operate {v w x r : Value} {h k m : Heap} {op : BinaryOp} (hop : op ≠ .index)
      (hv : (Cells.binary op v r).run h = (.ok w, k)) (hw : Updated w k x m) : Updated v h x m
  | edit {w x : Value} {m : Heap} {s s' : State} {inv : Invocation} (hb : inv.builtin ∈ [.append, .extend, .pop])
      (hs : s.perform inv = .ok s') (hv : w = inv.arg 0 ∨ inv.builtin ≠ .pop ∧ s'.task.control = .done (.value w))
      (hw : Updated w s'.world.heap x m) : Updated (inv.arg 0) s.world.heap x m
  | store {v w x key r : Value} {h k m : Heap} (hv : h.setIndex v key r = .ok (w, k)) (hw : Updated w k x m) :
      Updated v h x m

namespace SameBut

lemma refl : SameBut v h h := ⟨rfl, rfl, fun _ _ => rfl, fun _ _ => rfl⟩

lemma trans (hk : SameBut v h k) (hh' : SameBut v k h') : SameBut v h h' where
  lists := hh'.lists.trans hk.lists
  maps := hh'.maps.trans hk.maps
  list cell hv := (hh'.list cell hv).trans (hk.list cell hv)
  map cell hv := (hh'.map cell hv).trans (hk.map cell hv)

lemma setList (cell : Nat) (items : List Value) : SameBut (.sharedList cell) h (h.setList cell items) where
  lists := Array.size_setIfInBounds
  maps := rfl
  list other hne := by
    have hcell : cell ≠ other := fun heq => hne (by rw [heq])
    simp only [Heap.list, Heap.setList, Array.getD_eq_getD_getElem?, Array.getElem?_setIfInBounds_ne hcell]
  map _ _ := rfl

lemma setMap (cell : Nat) (entries : Dict Value) : SameBut (.sharedMap cell) h (h.setMap cell entries) where
  lists := rfl
  maps := Array.size_setIfInBounds
  list _ _ := rfl
  map other hne := by
    have hcell : cell ≠ other := fun heq => hne (by rw [heq])
    simp only [Heap.map, Heap.setMap, Array.getD_eq_getD_getElem?, Array.getElem?_setIfInBounds_ne hcell]

end SameBut

lemma list_setList (hc : cell < h.lists.size) (items : List Value) : (h.setList cell items).list cell = items := by
  simp [list, setList, hc]

lemma map_setMap (hc : cell < h.maps.size) (entries : Dict Value) : (h.setMap cell entries).map cell = entries := by
  simp [map, setMap, hc]

lemma binary_items (hop : op ∈ [.add, .sub, .mul]) (h : Heap) (items : List Value) (r : Value) :
    ∃ result : Except Fault (List Value), ∀ l, h.items? l = some items → h.binary op l r = result.map
    (h.putItems · l) := by
  have htag {l : Value} (hl : h.items? l = some items) : l.tag = .list := by
    cases l with
    | list | sharedList => rfl
    | _ => simp [items?] at hl
  simp only [List.mem_cons, List.not_mem_nil, or_false] at hop
  rcases hop with rfl | rfl | rfl
  · exact ⟨.ok (items ++ [r]), fun l hl => by simp [binary, add, hl, Except.map]⟩
  · cases r with
    | int i =>
      cases hp : position? i items.length with
      | some p => exact ⟨.ok (items.eraseIdx p), fun l hl => by simp [binary, subtract, hl, hp, Except.map]⟩
      | none => exact ⟨.error (.removeOutOfBounds i items.length),
          fun l hl => by simp [binary, subtract, hl, hp, Except.map]⟩
    | _ => exact ⟨.error (.illegalBinary .sub .list _), fun l hl => by simp only [binary, subtract, hl, htag hl]; rfl⟩
  · cases hr : h.items? r with
    | some extra => exact ⟨.ok (items ++ extra), fun l hl => by simp [binary, multiply, hl, hr, Except.map]⟩
    | none =>
      cases r with
      | int n =>
        refine ⟨(repeatCount items.length n).map (repeated items), fun l hl => ?_⟩
        simp only [binary, multiply, hl, hr]
        cases repeatCount items.length n <;> rfl
      | list | sharedList => simp [items?] at hr
      | _ => exact ⟨.error (.illegalBinary .mul .list _),
          fun l hl => by simp only [binary, multiply, hl, hr, htag hl]; rfl⟩

lemma add_entries (h : Heap) (entries : Dict Value) (r : Value) :
    ∃ result : Except Fault (Dict Value), ∀ l, h.entries? l = some entries →
      h.binary .add l r = result.map (h.putEntries · l) := by
  have htag {l : Value} (hl : h.entries? l = some entries) : l.tag = .hashmap ∧ h.items? l = none := by
    cases l with
    | map | sharedMap => exact ⟨rfl, rfl⟩
    | _ => simp [entries?] at hl
  cases hr : h.entries? r with
  | some extra =>
    exact ⟨.ok (entries.union extra), fun l hl => by simp [binary, add, hl, hr, (htag hl).2, Except.map]⟩
  | none =>
    exact ⟨.error (.illegalBinary .add .hashmap r.tag), fun l hl => by
      simp [binary, add, hl, hr, (htag hl).1, (htag hl).2, Except.map]⟩

lemma arithmetic_not_shared : Gives (·.isShared = false) (Value.arithmetic op l r) := by
  intro v hv
  have hnumber := Contents.number_arithmetic _ hv
  cases v with
  | sharedList | sharedMap => contradiction
  | _ => rfl

lemma binary_unchanged (hi : op ∈ [.add, .sub, .mul] → h.items? l = none) (he : op = .add → h.entries? l = none) :
    ∃ result, h.binary op l r = h.unchanged result ∧ (op ≠ .index → Gives (·.isShared = false) result) := by
  have harithmetic (op : BinaryOp) : Gives (·.isShared = false) (Value.arithmetic op l r) := arithmetic_not_shared
  have hrefused (f : Fault) : ∃ result, (.error f : Operated) = h.unchanged result ∧
      (op ≠ .index → Gives (·.isShared = false) result) := ⟨.error f, rfl, fun _ => .error⟩
  cases op with
  | add =>
    simp only [binary, add, hi (by simp), he rfl]
    split
    · exact ⟨.ok _, rfl, fun _ => .ok rfl⟩
    · exact ⟨.ok _, rfl, fun _ => .ok rfl⟩
    · exact hrefused _
    · exact hrefused _
    · exact ⟨_, rfl, fun _ => harithmetic _⟩
  | sub =>
    simp only [binary, subtract, hi (by simp)]
    split
    · exact hrefused _
    · exact hrefused _
    · exact ⟨_, rfl, fun _ => harithmetic _⟩
  | mul =>
    simp only [binary, multiply, hi (by simp)]
    split
    · rename_i s count
      refine ⟨(repeatCount s.utf8ByteSize count).map fun times => .str (String.join (List.replicate times s)), ?_,
        fun _ => ?_⟩
      · cases repeatCount s.utf8ByteSize count <;> rfl
      · exact .map_of_forall fun _ => rfl
    · split
      · exact hrefused _
      · exact hrefused _
      · exact ⟨_, rfl, fun _ => harithmetic _⟩
  | div | floorDiv | mod | pow => exact ⟨_, rfl, fun _ => harithmetic _⟩
  | index => exact ⟨_, rfl, fun hne => absurd rfl hne⟩
  | eq | ne | lt | gt | le | ge => exact ⟨_, rfl, fun _ => .map_of_forall fun _ => rfl⟩
  | and_ => exact ⟨_, rfl, fun _ => .bind fun _ _ => .ite (.bind fun _ _ => .ok rfl) (.ok rfl)⟩
  | or_ => exact ⟨_, rfl, fun _ => .bind fun _ _ => .ite (.ok rfl) (.bind fun _ _ => .ok rfl)⟩

structure Confined (v : Value) (h : Heap) (result : Value × Heap) : Prop where
  same : SameBut v h result.2
  handle : result.1 = v ∨ result.1.isShared = false
  plain : v.isShared = false → result.2 = h

lemma Confined.putItems (v : Value) (h : Heap) (items : List Value) : Confined v h (h.putItems items v) := by
  cases v with
  | sharedList cell => exact ⟨.setList cell items, .inl rfl, fun hplain => absurd hplain (by simp [Value.isShared])⟩
  | _ => exact ⟨.refl, .inr rfl, fun _ => rfl⟩

lemma Confined.putEntries (v : Value) (h : Heap) (entries : Dict Value) : Confined v h (h.putEntries entries v) := by
  cases v with
  | sharedMap cell => exact ⟨.setMap cell entries, .inl rfl, fun hplain => absurd hplain (by simp [Value.isShared])⟩
  | _ => exact ⟨.refl, .inr rfl, fun _ => rfl⟩

lemma confined_binary (hop : op ≠ .index) : Gives (Confined l h) (h.binary op l r) := by
  by_cases hi : op ∈ [.add, .sub, .mul] ∧ ∃ items, h.items? l = some items
  · obtain ⟨hop, items, hi⟩ := hi
    obtain ⟨result, hresult⟩ := binary_items hop h items r
    rw [hresult l hi]
    exact .map_of_forall fun items => .putItems l h items
  by_cases he : op = .add ∧ ∃ entries, h.entries? l = some entries
  · obtain ⟨rfl, entries, he⟩ := he
    obtain ⟨result, hresult⟩ := add_entries h entries r
    rw [hresult l he]
    exact .map_of_forall fun entries => .putEntries l h entries
  · obtain ⟨result, hresult, hplain⟩ := @binary_unchanged h op l r
      (fun hop => Option.eq_none_iff_forall_ne_some.2 fun items hitems => hi ⟨hop, items, hitems⟩)
      fun hop => Option.eq_none_iff_forall_ne_some.2 fun entries hentries => he ⟨hop, entries, hentries⟩
    rw [hresult]
    exact (hplain hop).map fun v hv => ⟨.refl, .inr hv, fun _ => rfl⟩

lemma confined_setIndex {key : Value} : Gives (Confined v h) (h.setIndex v key r) := by
  unfold setIndex
  split
  · split
    · exact .ok (.putItems v h _)
    · exact .error
  · exact .ok (.putEntries v h _)
  all_goals exact .error

lemma confined_perform {s s' : State} {inv : Invocation} (hb : inv.builtin ∈ [.append, .extend, .pop])
    (hs : s.perform inv = .ok s') (hw : w = inv.arg 0 ∨ inv.builtin ≠ .pop ∧ s'.task.control = .done (.value w)) :
    Confined (inv.arg 0) s.world.heap (w, s'.world.heap) := by
  have hgives : Gives (fun s' => ∃ items u, s' = (s.withItems (inv.arg 0) items).value u ∧
      (inv.builtin ≠ .pop → u = (s.world.heap.putItems items (inv.arg 0)).1)) (s.perform inv) := by
    obtain ⟨builtin, args, span, ctx⟩ := inv
    simp only [List.mem_cons, List.not_mem_nil, or_false] at hb
    rcases hb with rfl | rfl | rfl
    · exact .bind fun items _ => .ok ⟨_, _, rfl, fun _ => rfl⟩
    · exact .bind fun items _ => .bind fun others _ => .ok ⟨_, _, rfl, fun _ => rfl⟩
    · refine .bind fun items _ => .bind fun index _ => ?_
      split
      · exact .ok ⟨_, _, rfl, fun hne => absurd rfl hne⟩
      · exact .error
  obtain ⟨items, u, rfl, hu⟩ := hgives s' hs
  have hput := Confined.putItems (inv.arg 0) s.world.heap items
  rcases hw with rfl | ⟨hne, hc⟩
  · exact ⟨hput.same, .inl rfl, hput.plain⟩
  · obtain rfl : u = w := Completion.value.inj (Control.done.inj hc)
    exact hu hne ▸ hput

lemma Confined.trans (hw : Confined v h (w, k)) {result : Value × Heap} (hr : Confined w k result) :
    Confined v h result := by
  rcases hw.handle with rfl | hplain
  · exact ⟨hw.same.trans hr.same, hr.handle, fun hv => (hr.plain hv).trans (hw.plain hv)⟩
  · have hk : result.2 = k := hr.plain hplain
    refine ⟨hk ▸ hw.same, ?_, fun hv => hk.trans (hw.plain hv)⟩
    rcases hr.handle with heq | hr
    · exact .inr (heq ▸ hplain)
    · exact .inr hr

lemma Updated.confined (hw : Updated v h w k) : Confined v h (w, k) := by
  induction hw with
  | refl => exact ⟨.refl, .inl rfl, fun _ => rfl⟩
  | operate hop hv _ ih => exact (confined_binary hop _ (Cells.run_eq_ok.1 hv)).trans ih
  | edit hb hs hv _ ih => exact (confined_perform hb hs hv).trans ih
  | store hv _ ih => exact (confined_setIndex _ hv).trans ih

lemma binary_of_changedBy (hl : l.changedBy op = true) (hh : h.Holds l) (hok : h.binary op l r = .ok (v, h')) :
    v = l ∧ SameBut l h h' ∧ h.binary op (h.detach l) r = .ok (h'.detach l, h) := by
  cases l with
  | sharedList cell =>
    have hop : op ∈ [.add, .sub, .mul] := by simpa [or_assoc] using hl
    obtain ⟨result, hresult⟩ := binary_items hop h (h.list cell) r
    rw [hresult _ rfl] at hok
    rw [detach, hresult _ rfl]
    cases result with
    | error f => contradiction
    | ok items =>
      cases hok
      exact ⟨rfl, .setList cell items, by rw [detach, list_setList hh]; rfl⟩
  | sharedMap cell =>
    obtain rfl : op = .add := by simpa using hl
    obtain ⟨result, hresult⟩ := add_entries h (h.map cell) r
    rw [hresult _ rfl] at hok
    rw [detach, hresult _ rfl]
    cases result with
    | error f => contradiction
    | ok entries =>
      cases hok
      exact ⟨rfl, .setMap cell entries, by rw [detach, map_setMap hh]; rfl⟩
  | _ => simp at hl

lemma binary_of_not_changedBy (hl : l.changedBy op = false) (hok : h.binary op l r = .ok (v, h')) : h' = h := by
  by_cases hplain : op ≠ .index ∧ l.isShared = false
  · exact (confined_binary hplain.1 _ hok).plain hplain.2
  obtain ⟨result, hresult, -⟩ : ∃ result, h.binary op l r = h.unchanged result ∧ _ := by
    refine binary_unchanged (fun hop => ?_) fun hop => ?_
    · cases l with
      | sharedList => simp_all
      | list => simp_all [Value.isShared]
      | _ => rfl
    · cases l with
      | sharedMap => simp_all
      | map => simp_all [Value.isShared]
      | _ => rfl
  rw [hresult] at hok
  cases result with
  | error f => contradiction
  | ok w => exact (Prod.mk.inj (Except.ok.inj hok)).2.symm

lemma binary_detach_right (hl : l.changedBy op = true) (hop : op = .add → l.tag ≠ .list) :
    h.binary op (h.detach l) (h.detach r) = h.binary op (h.detach l) r := by
  cases l with
  | sharedList cell =>
    have hop : op = .sub ∨ op = .mul :=
      by simpa [or_assoc, show op ≠ .add from fun h => hop h rfl] using hl
    rcases hop with rfl | rfl <;> cases r <;> rfl
  | sharedMap cell =>
    obtain rfl : op = .add := by simpa using hl
    cases r <;> rfl
  | _ => simp at hl

end Heap

def sharedPair : State :=
  ⟨{ settings := ⟨⟨""⟩, 10⟩, globals := 0, heap := ⟨#[[.int 1, .int 2]], #[]⟩, files := ⟨[], [], []⟩, input := [] },
    { control := .done (.value .nil), stack := [], clock := 0 }⟩

end ScriptMachine
