import ScriptMachine.Proofs.Reread
import ScriptMachine.Proofs.Widening

/-! Equality and order of data. A value whose cells do not lie within themselves is seen whole, two such values are
equal where they are the same up to the kind of their numbers, and the order of numbers, strings and
booleans agrees with it. -/

namespace ScriptMachine

open List

lemma Dict.map_insert_of_get? {α β : Type} {f : α → β} {d : Dict α} (hd : d.Ordered) {key : String} {x y : α}
    (hget : d.get? key = some x) (hf : f y = f x) :
    (d.insert key y).map (fun e => (e.1, f e.2)) = d.map fun e => (e.1, f e.2) := by
  induction d with
  | nil => contradiction
  | cons e d ih =>
    obtain ⟨hlt, hd⟩ := pairwise_cons.1 hd
    rw [insert]
    by_cases hkey : key = e.1
    · rw [get?, if_pos hkey.symm] at hget
      cases hget
      rw [if_pos hkey, map_cons, map_cons, hf, hkey]
    · rw [get?, if_neg (Ne.symm hkey)] at hget
      have hafter : e.1 < key := hlt _ (mem_of_get? hget)
      rw [if_neg hkey, if_neg hafter.asymm, map_cons, map_cons, ih hd hget]

def Value.shared : ℕ ⊕ ℕ → Value
  | .inl cell => .sharedList cell
  | .inr cell => .sharedMap cell

namespace Heap

def parts (h : Heap) : Value → List Value
  | .list items => items
  | .map entries => entries.map Prod.snd
  | .sharedList cell => h.list cell
  | .sharedMap cell => (h.map cell).map Prod.snd
  | _ => []

def Founded (h : Heap) (v : Value) : Prop := Acc (fun part whole => part ∈ h.parts whole) v

inductive Reaches (h : Heap) : Value → ℕ ⊕ ℕ → Prop where
  | here {c} : Reaches h (.shared c) c
  | inside {v part c} : part ∈ h.parts v → Reaches h part c → Reaches h v c

section founded

variable {h : Heap} {v : Value} {c : ℕ ⊕ ℕ} {items : List Value} {entries : Dict Value}

lemma Founded.not_reaches (hv : h.Founded v) (hreach : h.Reaches v c) :
    ∀ part ∈ h.parts (.shared c), ¬ h.Reaches part c := by
  induction hv with
  | intro v _ ih =>
    cases hreach with
    | here =>
      intro part hpart hreach
      exact ih part hpart hreach part hpart hreach
    | inside hmem hreach => exact ih _ hmem hreach

def cells (h : Heap) : Finset (ℕ ⊕ ℕ) := (Finset.range h.lists.size).disjSum (Finset.range h.maps.size)

lemma card_cells (h : Heap) : h.cells.card = h.lists.size + h.maps.size := by
  simp [cells]

lemma parts_of_not_mem_cells (hc : c ∉ h.cells) : h.parts (.shared c) = [] := by
  cases c <;> simp_all [cells, parts, Value.shared, list, map, Array.getD]

lemma viewItems_eq (inner : Value → Value) (items : List Value) :
    h.viewItems inner items = items.map (h.viewWith inner) := by
  induction items with
  | nil => simp [viewItems]
  | cons v items ih => simp [viewItems, ih]

lemma viewEntries_eq (inner : Value → Value) (entries : Dict Value) :
    h.viewEntries inner entries = entries.map fun e => (e.1, h.viewWith inner e.2) := by
  induction entries with
  | nil => simp [viewEntries]
  | cons e entries ih => simp [viewEntries, ih]

lemma viewTo_list (n : ℕ) : h.viewTo n (.list items) = .list (items.map (h.viewTo n)) := by
  cases n <;> simp [viewTo, viewWith, viewItems_eq]

lemma viewTo_map (n : ℕ) : h.viewTo n (.map entries) = .map (entries.map fun e => (e.1, h.viewTo n e.2)) := by
  cases n <;> simp [viewTo, viewWith, viewEntries_eq]

lemma map_entries_congr {f g : Value → Value} (hfg : ∀ v ∈ entries.map Prod.snd, f v = g v) :
    (entries.map fun e => (e.1, f e.2)) = entries.map fun e => (e.1, g e.2) :=
  map_congr_left fun e he => by rw [hfg e.2 (mem_map_of_mem he)]

lemma viewTo_shared {n : ℕ} (hparts : ∀ part ∈ h.parts (.shared c), h.viewTo (n + 1) part = h.viewTo n part) :
    h.viewTo (n + 2) (.shared c) = h.viewTo (n + 1) (.shared c) := by
  cases c with
  | inl cell => exact congrArg Value.list (map_congr_left hparts)
  | inr cell => exact congrArg Value.map (map_entries_congr hparts)

lemma viewTo_shared_of_not_mem_cells (hc : c ∉ h.cells) (m n : ℕ) : h.viewTo m (.shared c) = h.viewTo n
    (.shared c) := by
  have hempty := parts_of_not_mem_cells hc
  cases c with
  | inl cell =>
    have hlist : h.list cell = [] := hempty
    cases m <;> cases n <;> simp [Value.shared, viewTo, viewWith, hlist]
  | inr cell =>
    have hmap : h.map cell = [] := map_eq_nil_iff.1 hempty
    cases m <;> cases n <;> simp [Value.shared, viewTo, viewWith, hmap]

lemma Founded.viewTo_succ (hv : h.Founded v) {s : Finset (ℕ ⊕ ℕ)} (hs : ∀ c ∈ h.cells, h.Reaches v c → c ∈ s) {n : ℕ}
    (hn : s.card ≤ n) : h.viewTo (n + 1) v = h.viewTo n v := by
  induction hv generalizing s n with
  | intro v hacc ih =>
    have hshared : ∀ c, v = .shared c → h.viewTo (n + 1) v = h.viewTo n v := by
      rintro c rfl
      by_cases hc : c ∈ h.cells
      · have hmem : c ∈ s := hs c hc .here
        obtain ⟨n, rfl⟩ : ∃ m, n = m + 1 := Nat.exists_eq_succ_of_ne_zero (by
          have := Finset.card_pos.2 ⟨c, hmem⟩
          omega)
        apply viewTo_shared
        intro part hpart
        have hapart := Founded.not_reaches (.intro _ hacc) Reaches.here part hpart
        apply ih part hpart (s := s.erase c)
        · intro d hd hreach
          refine Finset.mem_erase.2 ⟨?_, hs d hd (.inside hpart hreach)⟩
          rintro rfl
          exact hapart hreach
        · rw [Finset.card_erase_of_mem hmem]
          omega
      · exact viewTo_shared_of_not_mem_cells hc _ _
    have hparts : ∀ part ∈ h.parts v, h.viewTo (n + 1) part = h.viewTo n part := fun part hpart =>
      ih part hpart (fun c hc hreach => hs c hc (.inside hpart hreach)) hn
    cases v with
    | list items =>
      rw [viewTo_list, viewTo_list]
      exact congrArg Value.list (map_congr_left hparts)
    | map entries =>
      rw [viewTo_map, viewTo_map]
      exact congrArg Value.map (map_entries_congr hparts)
    | sharedList cell => exact hshared (.inl cell) rfl
    | sharedMap cell => exact hshared (.inr cell) rfl
    | _ => cases n <;> rfl

lemma Founded.view_eq (hv : h.Founded v) : h.view v = h.viewTo (h.lists.size + h.maps.size + 1) v :=
  (hv.viewTo_succ (fun _ hc _ => hc) h.card_cells.le).symm

lemma Founded.view_of_items (hv : h.Founded v) (hitems : h.items? v = some items) :
    h.view v = .list (items.map h.view) := by
  cases v with
  | list =>
    cases hitems
    exact viewTo_list _
  | sharedList =>
    cases hitems
    exact hv.view_eq
  | _ => cases hitems

lemma Founded.view_of_entries (hv : h.Founded v) (hentries : h.entries? v = some entries) :
    h.view v = .map (entries.map fun e => (e.1, h.view e.2)) := by
  cases v with
  | map =>
    cases hentries
    exact viewTo_map _
  | sharedMap =>
    cases hentries
    exact hv.view_eq
  | _ => cases hentries

end founded

end Heap

namespace Value

variable {xs ys : Dict Value}

mutual

def exact : Value → Value
  | .int n => .decimal n.toInt
  | .list items => .list (exactItems items)
  | .map entries => .map (exactEntries entries)
  | v => v

def exactItems : List Value → List Value
  | [] => []
  | v :: rest => exact v :: exactItems rest

def exactEntries : List (String × Value) → List (String × Value)
  | [] => []
  | (key, v) :: rest => (key, exact v) :: exactEntries rest

end

lemma exactItems_eq (items : List Value) : exactItems items = items.map exact := by
  induction items with
  | nil => simp [exactItems]
  | cons v items ih => simp [exactItems, ih]

lemma exactEntries_eq (entries : Dict Value) : exactEntries entries = entries.map fun e => (e.1, e.2.exact) := by
  induction entries with
  | nil => simp [exactEntries]
  | cons e entries ih => simp [exactEntries, ih]

inductive IsOpened : Value → Prop where
  | nil : IsOpened .nil
  | bool (b) : IsOpened (.bool b)
  | int (n) : IsOpened (.int n)
  | decimal (q) : IsOpened (.decimal q)
  | str (s) : IsOpened (.str s)
  | bytes (bs) : IsOpened (.bytes bs)
  | list {items} : (∀ v ∈ items, IsOpened v) → IsOpened (.list items)
  | map {entries} : Dict.Ordered entries → (∀ e ∈ entries, IsOpened e.2) → IsOpened (.map entries)

lemma Denotes.exact {v : Value} {q : ℚ} (h : v.Denotes q) : v.exact = .decimal q := by
  cases h <;> simp [Value.exact]

lemma Denotes.same_iff {a b : Value} {p q : ℚ} (ha : a.Denotes p) (hb : b.Denotes q) :
    a.same b = true ↔ a.exact = b.exact := by
  rw [ha.same hb, ha.exact, hb.exact, decide_eq_true_eq, decimal.injEq]

lemma sameItems_iff {xs ys : List Value} (hxs : ∀ v ∈ xs, ∀ w, IsOpened w → (v.same w = true ↔ v.exact = w.exact))
    (hys : ∀ w ∈ ys, IsOpened w) : sameItems xs ys = true ↔ xs.map exact = ys.map exact := by
  induction xs generalizing ys with
  | nil => cases ys <;> simp [sameItems]
  | cons v xs ih =>
    cases ys with
    | nil => simp [sameItems]
    | cons w ys =>
      rw [forall_mem_cons] at hxs hys
      simp only [sameItems, Bool.and_eq_true, map_cons, List.cons.injEq, hxs.1 w hys.1, ih hxs.2 hys.2]

lemma sameEntries_iff {d : Dict Value} :
    sameEntries xs d = true ↔ ∀ e ∈ xs, ∃ w, d.get? e.1 = some w ∧ e.2.same w = true := by
  induction xs with
  | nil => simp [sameEntries]
  | cons e xs ih =>
    obtain ⟨key, v⟩ := e
    rw [forall_mem_cons, ← ih]
    cases hd : d.get? key <;> simp [sameEntries, hd]

lemma entries_eq_of_subset (hx : xs.Ordered) (hy : ys.Ordered) (hlength : xs.length = ys.length) (hsub : xs ⊆ ys) :
    xs = ys := by
  have hnodup : xs.Nodup := hx.imp fun {a b} hlt heq => hlt.ne (congrArg Prod.fst heq)
  have hperm : xs.Perm ys := (hnodup.subperm hsub).perm_of_length_le hlength.ge
  exact hperm.eq_of_pairwise (fun a b _ _ hab hba => absurd hab hba.asymm) hx hy

lemma map_same_iff (hx : xs.Ordered) (hy : ys.Ordered)
    (hsame : ∀ e ∈ xs, ∀ w, IsOpened w → (e.2.same w = true ↔ e.2.exact = w.exact)) (hys : ∀ e ∈ ys, IsOpened e.2) :
    (xs.length == ys.length && sameEntries xs ys) = true ↔ exactEntries xs = exactEntries ys := by
  have hordered : ∀ {d : Dict Value}, d.Ordered → Dict.Ordered (exactEntries d) := by
    intro d hd
    rw [exactEntries_eq]
    exact pairwise_map.2 hd
  rw [Bool.and_eq_true, beq_iff_eq, sameEntries_iff]
  constructor
  · rintro ⟨hlength, hlookup⟩
    apply entries_eq_of_subset (hordered hx) (hordered hy)
    · simpa [exactEntries_eq] using hlength
    · intro e he
      rw [exactEntries_eq, mem_map] at he ⊢
      obtain ⟨e, hmem, rfl⟩ := he
      obtain ⟨w, hget, hw⟩ := hlookup e hmem
      have hmem' := Dict.mem_of_get? hget
      exact ⟨_, hmem', by rw [(hsame e hmem w (hys _ hmem')).1 hw]⟩
  · intro heq
    rw [exactEntries_eq, exactEntries_eq] at heq
    refine ⟨by simpa using congrArg List.length heq, fun e he => ?_⟩
    have hmem : (e.1, e.2.exact) ∈ ys.map fun e => (e.1, e.2.exact) := heq ▸ mem_map_of_mem he
    obtain ⟨f, hf, hfe⟩ := mem_map.1 hmem
    obtain ⟨hkey, hvalue⟩ := Prod.mk.inj hfe
    exact ⟨f.2, hkey ▸ Dict.get?_of_mem hy hf, (hsame e he f.2 (hys f hf)).2 hvalue.symm⟩

lemma IsOpened.same_iff {a b : Value} (ha : IsOpened a) (hb : IsOpened b) : a.same b = true ↔ a.exact = b.exact := by
  induction ha generalizing b <;> cases hb
  case int.int m n => exact (Denotes.int m).same_iff (.int n)
  case int.decimal n q => exact (Denotes.int n).same_iff (.decimal q)
  case decimal.int q n => exact (Denotes.decimal q).same_iff (.int n)
  case decimal.decimal p q => exact (Denotes.decimal p).same_iff (.decimal q)
  case list.list _ ih _ hys =>
    simp only [same, exact, list.injEq, exactItems_eq]
    exact sameItems_iff (fun v hv w hw => ih v hv hw) hys
  case map.map hx _ ih _ hy hys =>
    simp only [same, exact, map.injEq]
    exact map_same_iff hx hy (fun e he w hw => ih e he hw) hys
  case nil.nil | bool.bool | str.str | bytes.bytes => simp [same, exact]
  -- Two values of different kinds, not both numbers.
  all_goals exact iff_of_false (by simp only [same]; exact Bool.false_ne_true) (by simp [exact])

end Value

namespace Heap

/-- None, booleans, ints, decimals, strings, bytes, and lists and hashmaps of such values, plain or shared. A value is
built up in finitely many steps, so no cell lies within itself. -/
inductive IsData (h : Heap) : Value → Prop where
  | nil : IsData h .nil
  | bool (b) : IsData h (.bool b)
  | int (n) : IsData h (.int n)
  | decimal (q) : IsData h (.decimal q)
  | str (s) : IsData h (.str s)
  | bytes (bs) : IsData h (.bytes bs)
  | list {v items} : h.items? v = some items → (∀ w ∈ items, IsData h w) → IsData h v
  | map {v entries} : h.entries? v = some entries → entries.Ordered → (∀ e ∈ entries, IsData h e.2) → IsData h v

section data

variable {h : Heap} {a b c v w : Value} {items : List Value} {entries : Dict Value}

lemma parts_of_items (hitems : h.items? v = some items) : h.parts v = items := by
  cases v <;> cases hitems <;> rfl

lemma parts_of_entries (hentries : h.entries? v = some entries) : h.parts v = entries.map Prod.snd := by
  cases v <;> cases hentries <;> rfl

lemma IsData.of_items (hv : h.IsData v) (hitems : h.items? v = some items) : ∀ w ∈ items, h.IsData w := by
  cases hv with
  | list hv hparts =>
    cases hv.symm.trans hitems
    exact hparts
  | map hv => cases v <;> cases hv <;> cases hitems
  | _ => cases hitems

lemma IsData.of_entries (hv : h.IsData v) (hentries : h.entries? v = some entries) :
    entries.Ordered ∧ ∀ e ∈ entries, h.IsData e.2 := by
  cases hv with
  | map hv hkeys hparts =>
    cases hv.symm.trans hentries
    exact ⟨hkeys, hparts⟩
  | list hv => cases v <;> cases hv <;> cases hentries
  | _ => cases hentries

lemma IsData.founded (hv : h.IsData v) : h.Founded v := by
  induction hv with
  | list hv _ ih => exact .intro _ fun part hpart => ih part (parts_of_items hv ▸ hpart)
  | map hv _ _ ih =>
    refine .intro _ fun part hpart => ?_
    rw [parts_of_entries hv] at hpart
    obtain ⟨e, he, rfl⟩ := mem_map.1 hpart
    exact ih e he
  | _ => exact .intro _ fun part hpart => absurd hpart not_mem_nil

lemma view_of_viewWith (hv : ∀ inner, h.viewWith inner v = v) : h.view v = v := by
  rw [view]
  cases h.lists.size + h.maps.size <;> exact hv _

lemma IsData.view_isOpened (hv : h.IsData v) : (h.view v).IsOpened := by
  have hfounded := hv.founded
  induction hv with
  | list hv hitems ih =>
    rw [hfounded.view_of_items hv]
    apply Value.IsOpened.list
    intro w hw
    obtain ⟨w, hmem, rfl⟩ := mem_map.1 hw
    exact ih w hmem (hitems w hmem).founded
  | map hv hkeys hentries ih =>
    rw [hfounded.view_of_entries hv]
    refine .map (pairwise_map.2 hkeys) fun e he => ?_
    obtain ⟨e, hmem, rfl⟩ := mem_map.1 he
    exact ih e hmem (hentries e hmem).founded
  | _ =>
    rw [view_of_viewWith fun _ => rfl]
    constructor

def exact (h : Heap) (v : Value) : Value := (h.view v).exact

lemma IsData.equal_iff (ha : h.IsData a) (hb : h.IsData b) : h.equal a b = true ↔ h.exact a = h.exact b :=
  ha.view_isOpened.same_iff hb.view_isOpened

lemma equal_equivalence (h : Heap) : Equivalence fun a b : { v // h.IsData v } => h.equal a b = true where
  refl a := (a.2.equal_iff a.2).2 rfl
  symm {a b} hab := (b.2.equal_iff a.2).2 ((a.2.equal_iff b.2).1 hab).symm
  trans {a b c} hab hbc := (a.2.equal_iff c.2).2 (((a.2.equal_iff b.2).1 hab).trans ((b.2.equal_iff c.2).1 hbc))

lemma IsData.exact_of_items (hv : h.IsData v) (hitems : h.items? v = some items) :
    h.exact v = .list (items.map h.exact) := by
  rw [exact, hv.founded.view_of_items hitems, Value.exact, Value.exactItems_eq, map_map]
  rfl

lemma IsData.exact_of_entries (hv : h.IsData v) (hentries : h.entries? v = some entries) :
    h.exact v = .map (entries.map fun e => (e.1, h.exact e.2)) := by
  rw [exact, hv.founded.view_of_entries hentries, Value.exact, Value.exactEntries_eq, map_map]
  rfl

lemma IsData.replace_item (ha : h.IsData a) (hw : h.IsData w) (haItems : h.items? a = some items) {i : ℕ}
    (hv : items[i]? = some v) (heq : h.equal v w = true) (hbItems : h.items? b = some (items.set i w)) :
    h.equal a b = true := by
  have hitems := ha.of_items haItems
  have hb : h.IsData b := .list hbItems fun u hu => (mem_or_eq_of_mem_set hu).elim (hitems u) (· ▸ hw)
  obtain ⟨hi, rfl⟩ := List.getElem?_eq_some_iff.1 hv
  have hexact : h.exact w = h.exact items[i] := (((hitems _ (getElem_mem hi)).equal_iff hw).1 heq).symm
  rw [ha.equal_iff hb, ha.exact_of_items haItems, hb.exact_of_items hbItems, map_set, hexact, ← map_set,
    set_getElem_self]

lemma IsData.replace_entry (ha : h.IsData a) (hw : h.IsData w) (haEntries : h.entries? a = some entries) {key : String}
    (hv : entries.get? key = some v) (heq : h.equal v w = true)
    (hbEntries : h.entries? b = some (entries.insert key w)) : h.equal a b = true := by
  obtain ⟨hordered, hentries⟩ := ha.of_entries haEntries
  have hkeys := Dict.map_insert_of_get? (f := fun _ => ()) (y := w) hordered hv rfl
  have hinserted : Dict.Ordered (entries.insert key w) := by
    have hunits : Dict.Ordered (entries.map fun e => (e.1, ())) := pairwise_map.2 hordered
    rw [← hkeys, Dict.Ordered, pairwise_map] at hunits
    exact hunits
  have hb : h.IsData b := .map hbEntries hinserted (Dict.forall_mem_insert hentries hw)
  have hexact := ((hentries _ (Dict.mem_of_get? hv)).equal_iff hw).1 heq
  rw [ha.equal_iff hb, ha.exact_of_entries haEntries, hb.exact_of_entries hbEntries,
    Dict.map_insert_of_get? hordered hv hexact.symm]

lemma IsData.exact_eq_nil_iff (hv : h.IsData v) : h.exact v = .nil ↔ v.isNil = true := by
  cases hv with
  | list hv hparts =>
    rw [IsData.exact_of_items (.list hv hparts) hv]
    cases v <;> cases hv <;> simp [Value.isNil]
  | map hv hkeys hparts =>
    rw [IsData.exact_of_entries (.map hv hkeys hparts) hv]
    cases v <;> cases hv <;> simp [Value.isNil]
  | _ =>
    rw [exact, view_of_viewWith fun _ => rfl]
    simp [Value.exact, Value.isNil]

lemma IsData.equal_of_isNil (ha : h.IsData a) (hb : h.IsData b) (hnil : (a.isNil || b.isNil) = true) :
    h.equal a b = (a.isNil && b.isNil) := by
  rw [Bool.or_eq_true, ← ha.exact_eq_nil_iff, ← hb.exact_eq_nil_iff] at hnil
  rw [Bool.eq_iff_iff, ha.equal_iff hb, Bool.and_eq_true, ← ha.exact_eq_nil_iff, ← hb.exact_eq_nil_iff]
  constructor
  · intro heq
    rcases hnil with hnil | hnil
    · exact ⟨hnil, heq ▸ hnil⟩
    · exact ⟨heq ▸ hnil, hnil⟩
  · rintro ⟨hnilA, hnilB⟩
    rw [hnilA, hnilB]

lemma IsData.compare_eq (ha : h.IsData a) (hb : h.IsData b) : h.compare .eq a b = .ok (h.equal a b) := by
  unfold Heap.compare
  split
  · rename_i hnil
    rw [ha.equal_of_isNil hb hnil]
  · rfl

end data

inductive Ranked : Value → Value → Ordering → Prop where
  | strings (s t : String) : Ranked (.str s) (.str t) (cmp s t)
  | bools (x y : Bool) : Ranked (.bool x) (.bool y) (cmp x y)
  | numbers {a b : Value} {p q : ℚ} : a.Denotes p → b.Denotes q → Ranked a b (cmp p q)

section order

variable {h : Heap} {a b c : Value} {o : Ordering}

lemma cmp_eq_ite {α : Type} [LinearOrder α] (x y : α) :
    cmp x y = if x < y then .lt else if x = y then .eq else .gt := by
  rw [cmp, cmpUsing]
  rcases lt_trichotomy x y with hlt | rfl | hgt
  · simp [hlt]
  · simp
  · simp [hgt, hgt.not_gt, hgt.ne']

lemma compareRats_eq_cmp (p q : ℚ) : Value.compareRats p q = cmp p q := by
  rw [cmp_eq_ite, Value.compareRats]

lemma compareStrings_eq_cmp (s t : String) : Value.compareStrings s t = cmp s t := by
  rw [cmp_eq_ite, Value.compareStrings]

lemma Ranked.swap (hr : Ranked a b o) : Ranked b a o.swap := by
  cases hr with
  | strings s t => exact cmp_swap s t ▸ .strings t s
  | bools x y => exact cmp_swap x y ▸ .bools y x
  | @numbers _ _ p q hp hq => exact cmp_swap p q ▸ .numbers hq hp

lemma cmp_lt_trans {α : Type} [LinearOrder α] {x y z : α} (hxy : cmp x y = .lt) (hyz : cmp y z = .lt) :
    cmp x z = .lt :=
  (cmp_eq_lt_iff x z).2 (((cmp_eq_lt_iff x y).1 hxy).trans ((cmp_eq_lt_iff y z).1 hyz))

lemma denotes_unique {v : Value} {p q : ℚ} (hp : v.Denotes p) (hq : v.Denotes q) : p = q := by
  cases hp <;> cases hq <;> rfl

lemma Ranked.trans {o' : Ordering} (hab : Ranked a b o) (hbc : Ranked b c o') (ho : o = .lt) (ho' : o' = .lt) :
    Ranked a c .lt := by
  cases hab with
  | strings s t =>
    cases hbc with
    | strings _ u => exact cmp_lt_trans ho ho' ▸ .strings s u
    | numbers hp => cases hp
  | bools x y =>
    cases hbc with
    | bools _ z => exact cmp_lt_trans ho ho' ▸ .bools x z
    | numbers hp => cases hp
  | numbers hp hq =>
    cases hbc with
    | numbers hq' hr =>
      obtain rfl := denotes_unique hq hq'
      exact cmp_lt_trans ho ho' ▸ .numbers hp hr
    | _ => cases hq

lemma Ranked.relate (hr : Ranked a b o) : a.relate b = .ordered o := by
  cases hr with
  | strings s t => exact congrArg Value.Relation.ordered (compareStrings_eq_cmp s t)
  | bools x y => cases x <;> cases y <;> rfl
  | numbers hp hq => rw [hp.relate hq, compareRats_eq_cmp]

lemma Ranked.isNil (hr : Ranked a b o) : a.isNil = false := by
  cases hr with
  | numbers hp => exact hp.isNil
  | _ => rfl

lemma Ranked.equal (hr : Ranked a b o) (h : Heap) : h.equal a b = decide (o = .eq) := by
  cases hr with
  | strings | bools =>
    rw [Heap.equal, view_of_viewWith fun _ => rfl, view_of_viewWith fun _ => rfl]
    simp [Value.same, cmp_eq_eq_iff, Bool.beq_eq_decide_eq]
  | numbers hp hq =>
    rw [hp.equal hq]
    simp only [cmp_eq_eq_iff]

lemma Ranked.compare (hr : Ranked a b o) (h : Heap) {op : BinaryOp} (hop : op ∈ [.lt, .le, .gt, .ge]) :
    h.compare op a b = .ok (Value.orderHolds op o) := by
  unfold Heap.compare
  rw [hr.isNil, hr.swap.isNil, hr.relate]
  simp only [mem_cons, not_mem_nil, or_false] at hop
  rcases hop with rfl | rfl | rfl | rfl <;> rfl

lemma Ranked.compare_eq (hr : Ranked a b o) (h : Heap) : h.compare .eq a b = .ok (decide (o = .eq)) := by
  unfold Heap.compare
  rw [hr.isNil, hr.swap.isNil, hr.equal]
  rfl

lemma promote_eq_none (hfloat : a.float? = none ∨ b.float? = none) {p q : Option ℚ} (ha : a.toRat? = .ok p)
    (hb : b.toRat? = .ok q) (hnone : p = none ∨ q = none) : Value.promote a b = .ok none := by
  rw [Value.promote.eq_def]
  split
  · rcases hfloat with hfloat | hfloat <;> cases hfloat
  · rw [ha, hb]
    split
    · rcases hnone with rfl | rfl
      · rfl
      · cases p <;> rfl
    · rcases hfloat with hfloat | hfloat
      · rw [hfloat]
      · rw [hfloat]
        cases a.float? <;> rfl

lemma IsData.number_or (ha : h.IsData a) :
    (∃ p, a.Denotes p ∧ a.toRat? = .ok (some p)) ∨ a.float? = none ∧ a.toRat? = .ok none := by
  cases ha with
  | int n => exact .inl ⟨_, .int n, rfl⟩
  | decimal q => exact .inl ⟨_, .decimal q, rfl⟩
  | list hv | map hv => cases a <;> cases hv <;> exact .inr ⟨rfl, rfl⟩
  | _ => exact .inr ⟨rfl, rfl⟩

lemma IsData.numbers_or (ha : h.IsData a) (hb : h.IsData b) :
    (∃ p q, a.Denotes p ∧ b.Denotes q) ∨ Value.promote a b = .ok none := by
  rcases ha.number_or with ⟨p, hp, hap⟩ | ⟨hfloat, hap⟩ <;> rcases hb.number_or with ⟨q, hq, hbq⟩ | ⟨hfloat', hbq⟩
  · exact .inl ⟨p, q, hp, hq⟩
  · exact .inr (promote_eq_none (.inr hfloat') hap hbq (.inr rfl))
  · exact .inr (promote_eq_none (.inl hfloat) hap hbq (.inl rfl))
  · exact .inr (promote_eq_none (.inl hfloat) hap hbq (.inl rfl))

lemma IsData.ranked (ha : h.IsData a) (hb : h.IsData b) {r : Bool} (hlt : h.compare .lt a b = .ok r) :
    (a.isNil || b.isNil) = true ∨ ∃ o, Ranked a b o := by
  rcases ha.numbers_or hb with ⟨p, q, hp, hq⟩ | hpromote
  · exact .inr ⟨_, .numbers hp hq⟩
  · unfold Heap.compare at hlt
    split at hlt
    · rename_i hnil
      exact .inl hnil
    · have hrelate : a.relate b ≠ .incomparable := by
        intro hrelate
        rw [hrelate] at hlt
        contradiction
      rw [Value.relate.eq_def] at hrelate
      split at hrelate
      · exact .inr ⟨_, .strings _ _⟩
      · exact .inr ⟨_, .bools _ _⟩
      · rw [hpromote] at hrelate
        contradiction

lemma compare_of_isNil (h : Heap) (hnil : (a.isNil || b.isNil) = true) {op : BinaryOp} (hop : op ≠ .ne) :
    h.compare op a b = .ok (op ∈ [BinaryOp.eq, .le, .ge] && a.isNil && b.isNil) := by
  unfold Heap.compare
  cases op <;> simp_all

lemma IsData.ranked_lt (ha : h.IsData a) (hb : h.IsData b) (hlt : h.compare .lt a b = .ok true) : Ranked a b .lt := by
  rcases ha.ranked hb hlt with hnil | ⟨o, hr⟩
  · rw [compare_of_isNil h hnil (by decide)] at hlt
    simp at hlt
  · rw [hr.compare h (by simp)] at hlt
    have ho : o = .lt := by simpa [Value.orderHolds] using hlt
    exact ho ▸ hr

structure Coherent (h : Heap) (a b : Value) : Prop where
  defined : ∀ op ∈ [BinaryOp.lt, .le, .gt, .ge, .eq], (h.compare op a b).isOk ∧ (h.compare op b a).isOk
  le_iff : h.compare .le a b = .ok true ↔ h.compare .lt a b = .ok true ∨ h.compare .eq a b = .ok true
  gt_iff : h.compare .gt a b = .ok true ↔ h.compare .lt b a = .ok true
  ge_iff : h.compare .ge a b = .ok true ↔ h.compare .le b a = .ok true
  not_lt_eq : ¬ (h.compare .lt a b = .ok true ∧ h.compare .eq a b = .ok true)
  not_lt_gt : ¬ (h.compare .lt a b = .ok true ∧ h.compare .gt a b = .ok true)
  not_eq_gt : ¬ (h.compare .eq a b = .ok true ∧ h.compare .gt a b = .ok true)
  total : a ≠ .nil → b ≠ .nil →
    h.compare .lt a b = .ok true ∨ h.compare .eq a b = .ok true ∨ h.compare .gt a b = .ok true

lemma Ranked.coherent (hr : Ranked a b o) (h : Heap) : h.Coherent a b := by
  have hab := @Ranked.compare _ _ _ hr h
  have hba := @Ranked.compare _ _ _ hr.swap h
  constructor <;> cases o <;> simp [hab, hba, hr.compare_eq h, hr.swap.compare_eq h, Value.orderHolds, Except.isOk,
    Except.toBool]

lemma eq_nil_of_isNil (hnil : a.isNil = true) : a = .nil := by
  cases a <;> first | rfl | contradiction

lemma coherent_of_isNil (h : Heap) (hnil : (a.isNil || b.isNil) = true) : h.Coherent a b := by
  have hab := @compare_of_isNil _ _ h hnil
  have hba := @compare_of_isNil _ _ h (Bool.or_comm _ _ ▸ hnil)
  constructor
  case total =>
    intro ha hb
    rcases Bool.or_eq_true_iff.1 hnil with hnil | hnil
    · exact absurd (eq_nil_of_isNil hnil) ha
    · exact absurd (eq_nil_of_isNil hnil) hb
  case ge_iff =>
    simp [hab, hba, and_comm]
  all_goals simp [hab, hba, Except.isOk, Except.toBool]

end order

theorem equality_and_order_coherent (h : Heap) :
    Equivalence (fun a b : { v // h.IsData v } => h.equal a b = true) ∧
      (∀ a b v w items i, h.IsData a → h.IsData w → h.items? a = some items → items[i]? = some v → h.equal v w = true →
        h.items? b = some (items.set i w) → h.equal a b = true) ∧
      (∀ a b v w entries key, h.IsData a → h.IsData w → h.entries? a = some entries → entries.get? key = some v →
        h.equal v w = true → h.entries? b = some (entries.insert key w) → h.equal a b = true) ∧
      (∀ a b, h.IsData a → h.IsData b → h.compare .eq a b = .ok (h.equal a b)) ∧
      (∀ a b r, h.IsData a → h.IsData b → h.compare .lt a b = .ok r → h.Coherent a b) ∧
      ∀ a b c, h.IsData a → h.IsData b → h.IsData c → h.compare .lt a b = .ok true → h.compare .lt b c = .ok true →
        h.compare .lt a c = .ok true := by
  refine ⟨equal_equivalence h, ?_, ?_, fun a b ha hb => ha.compare_eq hb, ?_, ?_⟩
  · intro a b v w items i ha hw hitems hv heq hset
    exact ha.replace_item hw hitems hv heq hset
  · intro a b v w entries key ha hw hentries hv heq hinsert
    exact ha.replace_entry hw hentries hv heq hinsert
  · intro a b r ha hb hlt
    rcases ha.ranked hb hlt with hnil | ⟨o, hr⟩
    · exact coherent_of_isNil h hnil
    · exact hr.coherent h
  · intro a b c ha hb hc hab hbc
    exact ((ha.ranked_lt hb hab).trans (hb.ranked_lt hc hbc) rfl rfl).compare h (by simp)

theorem shared_equals_plain_both_ways :
    let h : Heap := { lists := #[[.int 1, .sharedMap 0]], maps := #[[("k", .decimal 2)]] }
    let plain : Value := .list [.decimal 1, .map [("k", .int 2)]]
    h.IsData (.sharedList 0) ∧ h.IsData plain ∧ h.equal (.sharedList 0) plain = true ∧
      h.equal plain (.sharedList 0) = true := by
  intro h plain
  have hshared : h.IsData (.sharedList 0) :=
    .list rfl (forall_mem_cons.2 ⟨.int 1, forall_mem_singleton.2
      (.map rfl (pairwise_singleton _ _) (forall_mem_singleton.2 (.decimal 2)))⟩)
  have hplain : h.IsData plain :=
    .list rfl (forall_mem_cons.2 ⟨.decimal 1, forall_mem_singleton.2
      (.map rfl (pairwise_singleton _ _) (forall_mem_singleton.2 (.int 2)))⟩)
  have hequal : h.equal (.sharedList 0) plain = true := by decide
  exact ⟨hshared, hplain, hequal, (equality_and_order_coherent h).1.symm (x := ⟨_, hshared⟩) (y := ⟨_, hplain⟩) hequal⟩

end Heap

end ScriptMachine
