import ScriptMachine.Proofs.Mirror

/-! Names declared with `using`. A declaration finds one table among those of the enclosing contexts, and from then on
the name is read and written there, whatever the tables in between come to hold. -/

namespace ScriptMachine

open List

lemma headD_notMem_tail {l : List Nat} (h : l.Nodup) : l.headD 0 ∉ l.tail := by
  cases l with
  | nil => simp
  | cons a l => exact (nodup_cons.1 h).1

namespace Tables

variable {id : Nat} {t t' : Tables} {chain : List Nat} {x : String}

lemma find?_congr (h : ∀ id ∈ chain, (t'.table id).get? x = (t.table id).get? x) :
    t'.find? chain x = t.find? chain x := by
  induction chain with
  | nil => rfl
  | cons id chain ih =>
    obtain ⟨hfirst, hrest⟩ := forall_mem_cons.1 h
    rw [find?, findSome?_cons, hfirst, ← find?, ih hrest]
    rfl

lemma find?_cons_of_get? {v : Value} (h : (t.table id).get? x = some v) :
    t.find? (id :: chain) x = some v := by rw [find?, findSome?_cons, h]

lemma has_iff_binds : (t.table id).has x = true ↔ t.Binds id x := Option.isSome_iff_ne_none

lemma escapesOf_push (he : t'.escapes = t.escapes.push []) (h : id < t.escapes.size) :
    t'.escapesOf id = t.escapesOf id := by
  simp [escapesOf, he, Array.getD_eq_getD_getElem?, Array.getElem?_push, h.ne]

end Tables

namespace Context

variable {c : Context} {t t' : Tables} {x : String}

def ownTable (c : Context) : Nat := c.scope.headD 0

def Within (c d : Context) : Prop := c.scope = c.ownTable :: d.scope ∧ c.privates = c.privateTable :: d.privates

lemma chainOf_subset (h : c.scope ≠ []) : c.chainOf t x ⊆ c.scope := by
  have hroot := root_mem h
  unfold chainOf
  split
  · exact List.Subset.refl _
  · exact cons_subset.2 ⟨hroot, nil_subset _⟩
  · split
    · exact cons_subset.2 ⟨hroot, nil_subset _⟩
    · exact drop_subset _ _

lemma lookup_congr (hs : c.scope ≠ []) (he : t'.escapes = t.escapes)
    (h : ∀ id ∈ c.scope ++ c.privates, (t'.table id).get? x = (t.table id).get? x) :
    c.lookup t' x = c.lookup t x := by
  have hb : c.binding t' x = c.binding t x := by rw [binding, binding, Tables.escapesOf, Tables.escapesOf, he]
  have hc : c.chainOf t' x = c.chainOf t x := by rw [chainOf, chainOf, hb]
  have hchain : t'.find? (c.chainOf t x) x = t.find? (c.chainOf t x) x :=
    Tables.find?_congr fun id hid => h id (mem_append_left _ (chainOf_subset hs hid))
  rw [lookup, lookup, hb, hc, hchain, Tables.find?_congr fun id hid => h id (mem_append_left _ hid),
    Tables.find?_congr fun id hid => h id (mem_append_right _ hid)]

lemma binding_of_declare {b : Binding} {parent : Bool} (hlt : c.escapes < t.escapes.size)
    (h : c.declare t x parent = .ok (b, t')) : c.binding t' x = b := by
  obtain ⟨-, rfl, -⟩ := declare_ok h
  simp [binding, Tables.escapesOf, Array.getD_eq_getD_getElem?, Array.getElem_modify, hlt, Dict.get?_insert_self]

end Context

namespace Scopes

variable {s : Scopes} {c d : Context} {enclosing inner outer : List Context} {x : String} {id : Nat}

structure Nest (s : Scopes) (chain : List Context) : Prop where
  made : ∀ c ∈ chain, c ∈ s.contexts
  within : chain.IsChain Context.Within
  module : ∀ m ∈ chain.getLast?, m.isGlobal = true

def Deletes (s : Scopes) (id : Nat) (x : String) : ScopeAct → Prop
  | .remove i y => y = x ∧ ∃ c, s.contexts[i]? = some c ∧ c.home s.tables x = id
  | _ => False

/-- No later act takes the name out of the table, and the context does not declare it anew. -/
structure Keeps (history later : List ScopeAct) (i : Nat) (x : String) (id : Nat) : Prop where
  declared : ∀ parent, .declare i x parent ∉ later
  deleted : ∀ before a rest, later = before ++ a :: rest → ¬(after (history ++ before)).Deletes id x a

/-- A context reads and writes a name in the own table of `d`, one of the contexts around it. -/
structure ReachesInto (s : Scopes) (c : Context) (x : String) (inner : List Context) (d : Context)
    (outer : List Context) : Prop where
  bound : s.tables.Binds d.ownTable x
  reads : c.lookup s.tables x = (s.tables.table d.ownTable).get? x
  writes (v : Value) : ((c.assign s.tables x v).table d.ownTable).get? x = some v ∧
    c.lookup (c.assign s.tables x v) x = some v
  others (v : Value) : ∀ e ∈ s.contexts, ∀ id ∈ e.scope, ∀ y, id ≠ d.ownTable ∨ y ≠ x →
    ((c.assign s.tables x v).table id).get? y = (s.tables.table id).get? y
  between (v : Value) : (∀ e ∈ inner, ¬s.tables.Binds e.ownTable x) → ∀ e ∈ inner ++ [d],
    e.binding s.tables x = .here → e.lookup (c.assign s.tables x v) x = some v
  outside (v : Value) : ∀ e ∈ outer, ∀ y, e.lookup (c.assign s.tables x v) y = e.lookup s.tables y

structure Distinct (s : Scopes) : Prop where
  scope : ∀ c ∈ s.contexts, c.scope.Nodup
  privates : ∀ c ∈ s.contexts, c.privates.Nodup
  record : ∀ (i : Nat) (c : Context), s.contexts[i]? = some c → c.escapes = i
  size : s.tables.escapes.size = s.contexts.length

namespace Distinct

lemma add (h : s.Distinct) {r : Context × Tables} (hscope : r.1.scope.Nodup) (hprivates : r.1.privates.Nodup)
    (hrecord : r.1.escapes = s.tables.escapes.size) (hsize : r.2.escapes.size = s.tables.escapes.size + 1) :
    (s.add r).Distinct where
  scope := by simpa [Scopes.add, or_imp, forall_and] using ⟨h.scope, hscope⟩
  privates := by simpa [Scopes.add, or_imp, forall_and] using ⟨h.privates, hprivates⟩
  record i c hc := by
    rw [Scopes.add, getElem?_append] at hc
    split at hc
    · exact h.record i c hc
    · rename_i hi
      obtain ⟨hzero, rfl⟩ : i - s.contexts.length = 0 ∧ r.1 = c := by
        cases hk : i - s.contexts.length with
        | zero => simpa [hk] using hc
        | succ k => simp [hk] at hc
      rw [hrecord, h.size]
      omega
  size := by simp [Scopes.add, hsize, h.size]

lemma setTables (h : s.Distinct) {t : Tables} (ht : t.escapes.size = s.tables.escapes.size) :
    Distinct { s with tables := t } where
  scope := h.scope
  privates := h.privates
  record := h.record
  size := ht.trans h.size

lemma act (h : s.Distinct) (hl : s.Laid) (a : ScopeAct) : (s.act a).Distinct := by
  cases a with
  | module name source globals parent entry =>
    cases globals with
    | inl entries => exact h.add (nodup_singleton _) (nodup_singleton _) rfl (Array.size_push _)
    | inr host =>
      simp only [Scopes.act]
      split
      · exact h.add (nodup_singleton _) (nodup_singleton _) rfl (Array.size_push _)
      · exact h
  | nest name lexical parent entry =>
    simp only [Scopes.act]
    split
    · rename_i l hc
      have hmem := mem_of_getElem? hc
      refine h.add ?_ ?_ rfl (Array.size_push _)
      · exact nodup_cons.2 ⟨fun hin => absurd (hl.scope_lt l hmem _ hin) (Nat.lt_irrefl _), h.scope l hmem⟩
      · rw [Context.privates_nest]
        refine nodup_cons.2 ⟨fun hin => ?_, h.privates l hmem⟩
        exact absurd (hl.private_lt l hmem _ hin) (Nat.not_lt.2 (Nat.le_succ _))
    · exact h
  | assign | remove =>
    simp only [Scopes.act]
    split
    · exact h.setTables rfl
    · exact h
  | declare ctx name parent =>
    simp only [Scopes.act]
    split
    · split
      · rename_i hdeclared
        obtain ⟨-, rfl, -⟩ := Context.declare_ok hdeclared
        exact h.setTables Array.size_modify
      · exact h
    · exact h

end Distinct

lemma after_concat (history : List ScopeAct) (a : ScopeAct) : after (history ++ [a]) = (after history).act a :=
  foldl_concat ..

lemma distinct_after (history : List ScopeAct) : (after history).Distinct := by
  induction history using reverseRecOn with
  | nil => constructor <;> simp [after]
  | append_singleton history a ih =>
    rw [after_concat]
    exact ih.act (laid_after history) a

structure Stays (s s' : Scopes) (c : Context) (x : String) (id : Nat) : Prop where
  contexts : ∃ more, s'.contexts = s.contexts ++ more
  binding : c.binding s'.tables x = c.binding s.tables x
  bound : s'.tables.Binds id x

namespace Stays

variable {i : Nat} {s' s'' : Scopes}

lemma refl (hb : s.tables.Binds id x) : s.Stays s c x id := ⟨⟨[], (append_nil _).symm⟩, rfl, hb⟩

lemma trans (h : s.Stays s' c x id) (h' : s'.Stays s'' c x id) : s.Stays s'' c x id where
  contexts := by
    obtain ⟨more, hmore⟩ := h.contexts
    obtain ⟨more', hmore'⟩ := h'.contexts
    exact ⟨more ++ more', by rw [hmore', hmore, append_assoc]⟩
  binding := h'.binding.trans h.binding
  bound := h'.bound

lemma getElem? (h : s.Stays s' c x id) (hc : s.contexts[i]? = some c) : s'.contexts[i]? = some c := by
  obtain ⟨more, hmore⟩ := h.contexts
  rw [hmore, getElem?_append_left (List.getElem?_eq_some_iff.1 hc).1, hc]

lemma add (hc : s.contexts[i]? = some c) (hb : s.tables.Binds id x) (hd : s.Distinct) (hid : id < s.tables.tables.size)
    {r : Context × Tables} (hkept : ∀ id < s.tables.tables.size, r.2.Binds id x ↔ s.tables.Binds id x)
    (hrecords : r.2.escapes = s.tables.escapes.push []) : s.Stays (s.add r) c x id where
  contexts := ⟨[r.1], rfl⟩
  binding := by
    have hlt : c.escapes < s.tables.escapes.size := by
      rw [hd.record i c hc, hd.size]
      exact (List.getElem?_eq_some_iff.1 hc).1
    rw [Scopes.add, Context.binding, Context.binding, Tables.escapesOf_push hrecords hlt]
  bound := (hkept id hid).2 hb

lemma act (hl : s.Laid) (hd : s.Distinct) (hc : s.contexts[i]? = some c) (hid : id ∈ c.scope)
    (hb : s.tables.Binds id x) {a : ScopeAct} (hdeclared : ∀ parent, a ≠ .declare i x parent)
    (hdeleted : ¬s.Deletes id x a) : s.Stays (s.act a) c x id := by
  have hmem := mem_of_getElem? hc
  have hlt := hl.scope_lt c hmem id hid
  have hsame : ∃ more, s.contexts = s.contexts ++ more := ⟨[], (append_nil _).symm⟩
  cases a with
  | module name source globals parent entry =>
    cases globals with
    | inl entries =>
      have hsize : (s.tables.alloc entries).2.tables.size = s.tables.tables.size + 1 := Array.size_push _
      refine add hc hb hd hlt (fun id hid => ?_) rfl
      have hlt' : id < (s.tables.alloc entries).2.tables.size := by omega
      exact (Tables.binds_alloc hlt').trans (Tables.binds_alloc hid)
    | inr host =>
      simp only [Scopes.act]
      split
      · exact add hc hb hd hlt (fun id hid => Tables.binds_alloc hid) rfl
      · exact .refl hb
  | nest name lexical parent entry =>
    simp only [Scopes.act]
    split
    · have hsize : (s.tables.alloc []).2.tables.size = s.tables.tables.size + 1 := Array.size_push _
      refine add hc hb hd hlt (fun id hid => ?_) rfl
      have hlt' : id < (s.tables.alloc []).2.tables.size := by omega
      exact (Tables.binds_alloc hlt').trans (Tables.binds_alloc hid)
    · exact .refl hb
  | assign ctx name v =>
    simp only [Scopes.act]
    split
    · exact ⟨hsame, rfl, hb.set.set⟩
    · exact .refl hb
  | declare ctx name parent =>
    simp only [Scopes.act]
    split
    · rename_i e he
      split
      · rename_i b t hok
        obtain ⟨-, rfl, -⟩ := Context.declare_ok hok
        refine ⟨hsame, ?_, hb⟩
        have hother : ctx ≠ i ∨ x ≠ name := by
          by_contra hboth
          rw [not_or, not_not, not_not] at hboth
          obtain ⟨rfl, rfl⟩ := hboth
          exact hdeclared parent rfl
        rw [Context.binding, Context.binding, Tables.escapesOf, Tables.escapesOf, Array.getD_eq_getD_getElem?,
          Array.getD_eq_getD_getElem?, Array.getElem?_modify, hd.record ctx e he, hd.record i c hc]
        rcases hother with hne | hne
        · rw [if_neg hne]
        · split
          · cases s.tables.escapes[i]? with
            | none => rfl
            | some records => exact congrArg (Option.getD · _) (records.get?_insert_of_ne b hne)
          · rfl
      · exact .refl hb
    · exact .refl hb
  | remove ctx name =>
    simp only [Scopes.act]
    split
    · rename_i e he
      refine ⟨hsame, rfl, ?_⟩
      by_cases hname : x = name
      · subst hname
        have hhome : e.home s.tables x ≠ id := fun heq => hdeleted ⟨rfl, e, he, heq⟩
        have hprivate : e.privateTable ≠ id := by
          rintro rfl
          have hemem := mem_of_getElem? he
          exact hl.apart c hmem e hemem _ hid (hl.privates e hemem)
        exact (hb.erase (.inl hhome)).erase (.inl hprivate)
      · exact (hb.erase (.inr hname)).erase (.inr hname)
    · exact .refl hb

end Stays

lemma Keeps.stays {history later : List ScopeAct} {i : Nat} (h : Keeps history later i x id)
    (hc : (after history).contexts[i]? = some c) (hid : id ∈ c.scope) (hb : (after history).tables.Binds id x) :
    (after history).Stays (after (history ++ later)) c x id := by
  induction later using reverseRecOn with
  | nil =>
    rw [append_nil]
    exact .refl hb
  | append_singleton later a ih =>
    have hbefore : Keeps history later i x id := by
      refine ⟨fun parent hmem => h.declared parent (mem_append_left _ hmem), fun before b rest hsplit => ?_⟩
      exact h.deleted before b (rest ++ [a]) (by simp [hsplit])
    have hstays := ih hbefore
    rw [← append_assoc, after_concat]
    exact hstays.trans (.act (laid_after _) (distinct_after _) (hstays.getElem? hc) hid hstays.bound
      (fun parent ha => h.declared parent (by simp [ha])) (h.deleted later a [] rfl))

lemma find?_map_ownTable {t : Tables} {v : Value} (hv : (t.table d.ownTable).get? x = some v)
    (hnone : ∀ e ∈ inner, (t.table e.ownTable).get? x = none) :
    t.find? ((inner ++ d :: outer).map Context.ownTable) x = some v := by
  induction inner with
  | nil => exact Tables.find?_cons_of_get? hv
  | cons e inner ih =>
    obtain ⟨hfirst, hrest⟩ := forall_mem_cons.1 hnone
    rw [cons_append, map_cons, Tables.find?, findSome?_cons, hfirst]
    exact ih hrest

namespace Nest

lemma drop (inner : List Context) (h : s.Nest (inner ++ d :: outer)) : s.Nest (d :: outer) where
  made e he := h.made e (mem_append_right _ he)
  within := (isChain_append.1 h.within).2.1
  module m hm := h.module m (by rwa [getLast?_append_of_ne_nil _ (cons_ne_nil d outer)])

lemma scope_eq (h : s.Nest (c :: enclosing)) (hl : s.Laid) : c.scope = (c :: enclosing).map Context.ownTable := by
  induction enclosing generalizing c with
  | nil =>
    have hlength : c.scope.length ≤ 1 := by simpa [Context.isGlobal] using h.module c rfl
    obtain ⟨own, rest, hs⟩ := exists_cons_of_ne_nil (hl.scope c (h.made c mem_cons_self))
    obtain rfl : rest = [] := by
      rw [hs, length_cons] at hlength
      exact eq_nil_of_length_eq_zero (by omega)
    rw [hs, map_singleton, Context.ownTable, hs]
    rfl
  | cons d enclosing ih =>
    rw [(isChain_cons_cons.1 h.within).1.1, ih (drop [c] h)]
    rfl

lemma subset_tail (h : s.Nest (c :: enclosing)) (hd : d ∈ enclosing) :
    d.scope ⊆ c.scope.tail ∧ d.privates ⊆ c.privates.tail := by
  induction enclosing generalizing c with
  | nil => contradiction
  | cons e enclosing ih =>
    obtain ⟨hscope, hprivates⟩ := (isChain_cons_cons.1 h.within).1
    rw [hscope, hprivates]
    rcases mem_cons.1 hd with rfl | hd
    · exact ⟨List.Subset.refl _, List.Subset.refl _⟩
    · obtain ⟨hs, hp⟩ := ih (drop [c] h) hd
      exact ⟨List.Subset.trans hs (tail_subset _), List.Subset.trans hp (tail_subset _)⟩

lemma isGlobal_eq (h : s.Nest (c :: enclosing)) (hl : s.Laid) : c.isGlobal = enclosing.isEmpty := by
  rw [Context.isGlobal, h.scope_eq hl]
  cases enclosing <;> simp

lemma root_eq (h : s.Nest (c :: (inner ++ [d]))) (hl : s.Laid) : c.root = d.ownTable := by
  rw [Context.root, h.scope_eq hl, ← cons_append, map_append, map_singleton, getLastD_eq_getLast?,
    getLast?_concat]
  rfl

lemma declared (h : s.Nest (c :: enclosing)) (hl : s.Laid) {parent : Bool} {b : Binding} {t : Tables}
    (hok : c.declare s.tables x parent = .ok (b, t)) :
    ∃ inner d outer, enclosing = inner ++ d :: outer ∧ s.tables.Binds d.ownTable x ∧
      (if parent then ∀ e ∈ inner, ¬s.tables.Binds e.ownTable x else outer = []) ∧ b ≠ .here ∧
      ∀ t', c.binding t' x = b → c.chainOf t' x = d.scope := by
  have hscope := h.scope_eq hl
  obtain ⟨hglobal, -, ⟨rfl, k, hfound, rfl⟩ | ⟨rfl, hroot, rfl⟩⟩ := Context.declare_ok hok
  · rw [Tables.findOuter?, hscope, map_cons, tail_cons, findIdx?_map] at hfound
    obtain ⟨k, hk, rfl⟩ := Option.map_eq_some_iff.1 hfound
    obtain ⟨hlt, hhas, hbefore⟩ := findIdx?_eq_some_iff_getElem.1 hk
    have hsplit : enclosing = enclosing.take k ++ enclosing[k] :: enclosing.drop (k + 1) := by simp
    refine ⟨_, _, _, hsplit, Tables.has_iff_binds.1 hhas, ?_, by simp, fun t' hb => ?_⟩
    · rw [if_pos rfl]
      intro e he
      obtain ⟨j, hj, rfl⟩ := mem_take_iff_getElem.1 he
      rw [← Tables.has_iff_binds]
      exact hbefore j (by omega)
    · rw [hsplit, ← cons_append] at h
      have hlong : ¬c.scope.length ≤ k + 1 := by
        rw [hscope, length_map, length_cons]
        omega
      rw [Context.chainOf, hb, (drop _ h).scope_eq hl]
      simp only [if_neg hlong]
      rw [hscope, map_cons, drop_succ_cons, ← map_drop, getElem_cons_drop]
  · rw [h.isGlobal_eq hl] at hglobal
    obtain ⟨inner, d, rfl⟩ := (eq_nil_or_concat' enclosing).resolve_left (by simpa using hglobal)
    have hown := h.root_eq hl
    refine ⟨inner, d, [], rfl, hown ▸ Tables.has_iff_binds.1 hroot, by simp, by simp, fun t' hb => ?_⟩
    rw [← cons_append] at h
    rw [Context.chainOf, hb, (drop _ h).scope_eq hl, hown]
    rfl

lemma declares_parent_iff (h : s.Nest (c :: enclosing)) (hl : s.Laid) :
    (∃ r, c.declare s.tables x true = .ok r) ↔ ∃ d ∈ enclosing, s.tables.Binds d.ownTable x := by
  constructor
  · rintro ⟨⟨b, t⟩, hok⟩
    obtain ⟨inner, d, outer, rfl, hbinds, -⟩ := h.declared hl hok
    exact ⟨d, by simp, hbinds⟩
  · rintro ⟨d, hd, hbinds⟩
    have hglobal : c.isGlobal = false := by
      rw [h.isGlobal_eq hl]
      exact isEmpty_eq_false_iff.2 (ne_nil_of_mem hd)
    obtain ⟨k, hk⟩ : ∃ k, s.tables.findOuter? c.scope x = some k := by
      rw [← Option.isSome_iff_exists, Tables.findOuter?, Option.isSome_map, findIdx?_isSome, h.scope_eq hl,
        any_eq_true]
      exact ⟨d.ownTable, mem_map_of_mem hd, Tables.has_iff_binds.2 hbinds⟩
    simp [Context.declare, hglobal, hk, Except.map]

lemma declares_global_iff (h : s.Nest (c :: enclosing)) (hl : s.Laid) :
    (∃ r, c.declare s.tables x false = .ok r) ↔ ∃ m ∈ enclosing.getLast?, s.tables.Binds m.ownTable x := by
  constructor
  · rintro ⟨⟨b, t⟩, hok⟩
    obtain ⟨inner, d, outer, rfl, hbinds, hlast, -⟩ := h.declared hl hok
    obtain rfl : outer = [] := by simpa using hlast
    exact ⟨d, by simp, hbinds⟩
  · rintro ⟨m, hm, hbinds⟩
    obtain ⟨inner, rfl⟩ := getLast?_eq_some_iff.1 hm
    have hglobal : c.isGlobal = false := by rw [h.isGlobal_eq hl]; simp
    have hroot := h.root_eq hl
    have hhas := Tables.has_iff_binds.2 hbinds
    simp [Context.declare, hglobal, hroot, hhas, Except.map]

lemma reachesInto (h : s.Nest (c :: (inner ++ d :: outer))) (hl : s.Laid) (hd : s.Distinct)
    (hb : c.binding s.tables x ≠ .here) (hchain : c.chainOf s.tables x = d.scope)
    (hbound : s.tables.Binds d.ownTable x) : s.ReachesInto c x inner d outer := by
  rw [← cons_append] at h
  have hc : c ∈ s.contexts := h.made c (by simp)
  have hdmem : d ∈ s.contexts := h.made d (by simp)
  have hscope := (drop _ h).scope_eq hl
  have hhome : c.home s.tables x = d.ownTable := by
    rw [Context.home, hchain, hscope]
    rfl
  have howned : d.ownTable ∈ d.scope := by
    rw [hscope]
    exact mem_cons_self
  have hlookup (t : Tables) (ht : t.escapes = s.tables.escapes) : c.lookup t x = t.find? d.scope x := by
    have hb' : c.binding t x = c.binding s.tables x := by
      rw [Context.binding, Context.binding, Tables.escapesOf, Tables.escapesOf, ht]
    rw [← hchain, Context.chainOf, ← hb', ← Context.chainOf, Context.lookup]
    split
    · rename_i hhere
      exact absurd (hb' ▸ hhere) hb
    · rfl
  have hothers (v : Value) : ∀ e ∈ s.contexts, ∀ id ∈ e.scope, ∀ y, id ≠ d.ownTable ∨ y ≠ x →
      ((c.assign s.tables x v).table id).get? y = (s.tables.table id).get? y := by
    intro e he id hid y hne
    have hprivate : c.privateTable ≠ id := fun heq => hl.apart e he c hc id hid (heq ▸ hl.privates c hc)
    rw [Context.assign, hhome, Tables.get?_set (.inl hprivate), Tables.get?_set (hne.imp_left Ne.symm)]
  have hwritten (v : Value) : ((c.assign s.tables x v).table d.ownTable).get? x = some v := by
    have hprivate : c.privateTable ≠ d.ownTable := fun heq => hl.apart d hdmem c hc _ howned (heq ▸ hl.privates c hc)
    rw [Context.assign, hhome, Tables.get?_set (.inl hprivate)]
    exact Tables.table_set_self _ x v (hl.scope_lt d hdmem _ howned)
  constructor
  case bound => exact hbound
  case reads =>
    obtain ⟨v, hv⟩ := Option.ne_none_iff_exists'.1 hbound
    rw [hlookup _ rfl, hscope, hv]
    exact Tables.find?_cons_of_get? hv
  case writes =>
    refine fun v => ⟨hwritten v, ?_⟩
    rw [hlookup (c.assign s.tables x v) rfl, hscope]
    exact Tables.find?_cons_of_get? (hwritten v)
  case others => exact hothers
  case between =>
    intro v hfree e he hhere
    have hunbound : ∀ f ∈ inner, ((c.assign s.tables x v).table f.ownTable).get? x = none := by
      intro f hf
      have hfree' := not_not.1 (hfree f hf)
      have hne : f.ownTable ≠ d.ownTable := fun heq => hbound (heq ▸ hfree')
      obtain ⟨before, after, rfl⟩ := append_of_mem hf
      have hfscope := (drop (c :: before) (by simpa using h)).scope_eq hl
      rw [hothers v f (h.made f (by simp)) f.ownTable (hfscope ▸ mem_cons_self) x (.inl hne)]
      exact hfree'
    have hfind : (c.assign s.tables x v).find? e.scope x = some v := by
      rcases mem_append.1 he with he | he
      · obtain ⟨before, after, rfl⟩ := append_of_mem he
        rw [(drop (c :: before) (by simpa using h)).scope_eq hl, ← cons_append]
        exact find?_map_ownTable (hwritten v) fun f hf => hunbound f (mem_append_right _ hf)
      · rw [mem_singleton.1 he, hscope]
        exact Tables.find?_cons_of_get? (hwritten v)
    rw [Context.lookup, show e.binding (c.assign s.tables x v) x = .here from hhere, hfind]
    rfl
  case outside =>
    intro v e he y
    have hemem : e ∈ s.contexts := h.made e (by simp [he])
    refine Context.lookup_congr (hl.scope e hemem) rfl fun id hid => ?_
    rcases mem_append.1 hid with hid | hid
    · refine hothers v e hemem id hid y (.inl ?_)
      rintro rfl
      exact headD_notMem_tail (hd.scope d hdmem) (((drop _ h).subset_tail he).1 hid)
    · have hhome' : c.home s.tables x ≠ id := by
        rw [hhome]
        rintro rfl
        exact hl.apart d hdmem e hemem _ howned hid
      have hprivate : c.privateTable ≠ id := by
        rintro rfl
        exact headD_notMem_tail (hd.privates c hc) ((h.subset_tail (by simp [he])).2 hid)
      rw [Context.assign, Tables.get?_set (.inl hprivate), Tables.get?_set (.inl hhome')]

end Nest

end Scopes

/-- `using parent` finds the nearest of the enclosing contexts that binds the name, and plain `using` the module if it
does. From then on the context reads and writes the name in that table, and no other entry of a scope changes. -/
theorem using_reaches_enclosing_table {history : List ScopeAct} {i : Nat} {c : Context} {enclosing : List Context}
    (x : String) (hc : (Scopes.after history).contexts[i]? = some c)
    (h : (Scopes.after history).Nest (c :: enclosing)) :
    let s := Scopes.after history
    ((∃ r, c.declare s.tables x true = .ok r) ↔ ∃ d ∈ enclosing, s.tables.Binds d.ownTable x) ∧
    ((∃ r, c.declare s.tables x false = .ok r) ↔ ∃ m ∈ enclosing.getLast?, s.tables.Binds m.ownTable x) ∧
    ∀ parent r, c.declare s.tables x parent = .ok r → ∃ inner d outer, enclosing = inner ++ d :: outer ∧
      s.tables.Binds d.ownTable x ∧
      (if parent then ∀ e ∈ inner, ¬s.tables.Binds e.ownTable x else outer = []) ∧
      ∀ later, Scopes.Keeps (history ++ [.declare i x parent]) later i x d.ownTable →
        (Scopes.after (history ++ [.declare i x parent] ++ later)).ReachesInto c x inner d outer := by
  intro s
  have hl := Scopes.laid_after history
  refine ⟨h.declares_parent_iff hl, h.declares_global_iff hl, fun parent r hok => ?_⟩
  obtain ⟨b, t⟩ := r
  obtain ⟨inner, d, outer, rfl, hbinds, hnearest, hb, hchain⟩ := h.declared hl hok
  refine ⟨inner, d, outer, rfl, hbinds, hnearest, fun later hlater => ?_⟩
  have hdistinct := Scopes.distinct_after history
  have hlt : c.escapes < s.tables.escapes.size := by
    rw [hdistinct.record i c hc, hdistinct.size]
    exact (List.getElem?_eq_some_iff.1 hc).1
  have hact : Scopes.after (history ++ [.declare i x parent]) = { s with tables := t } := by
    rw [Scopes.after_concat, Scopes.act, hc]
    dsimp only
    rw [hok]
  have howned : d.ownTable ∈ c.scope := by
    rw [h.scope_eq hl]
    exact mem_map_of_mem (by simp)
  have hstays := hlater.stays (hact ▸ hc) howned
    (hact ▸ (Tables.binds_congr (Context.tables_of_declare hok)).2 hbinds)
  have hbinding : c.binding (Scopes.after (history ++ [.declare i x parent] ++ later)).tables x = b := by
    rw [hstays.binding, hact]
    exact Context.binding_of_declare hlt hok
  obtain ⟨more, hmore⟩ := hstays.contexts
  have hnest : (Scopes.after (history ++ [.declare i x parent] ++ later)).Nest (c :: (inner ++ d :: outer)) := by
    refine ⟨fun e he => ?_, h.within, h.module⟩
    rw [hmore, hact]
    exact mem_append_left _ (h.made e he)
  exact hnest.reachesInto (Scopes.laid_after _) (Scopes.distinct_after _) (hbinding ▸ hb) (hchain _ hbinding)
    hstays.bound

/-- Three functions inside each other in a program. The program and the outermost function bind the name. -/
def threeFunctions : List ScopeAct := [.module "<program>" ⟨"", ""⟩ (.inl [("x", .int 0)]) none (Span.point 0),
  .nest "f" 0 (some 0) (Span.point 0), .nest "g" 1 (some 1) (Span.point 0), .nest "h" 2 (some 2) (Span.point 0),
  .assign 1 "x" (.int 1)]

theorem using_reaches_past_later_binding :
    let s := Scopes.after (threeFunctions ++ [.declare 3 "x" true] ++ [.assign 2 "x" (.int 5)])
    ∃ c ∈ s.contexts, c.name = "h" ∧ ∃ inner d outer, d.name = "f" ∧ s.ReachesInto c "x" inner d outer ∧
      c.lookup s.tables "x" = some (.int 1) := by
  intro s
  obtain ⟨p, f, g, h, hall⟩ : ∃ p f g h, (Scopes.after threeFunctions).contexts = [p, f, g, h] := ⟨_, _, _, _, rfl⟩
  have hmade : ∀ c ∈ [h, g, f, p], c ∈ (Scopes.after threeFunctions).contexts := by
    rw [hall]
    simp
  have hinner : (Scopes.after threeFunctions).contexts[3]? = some h := by rw [hall]; rfl
  obtain ⟨rfl, rfl, rfl, rfl, -⟩ := by simpa using hall
  have hnest : (Scopes.after threeFunctions).Nest _ :=
    ⟨hmade, .cons_cons ⟨rfl, rfl⟩ (.cons_cons ⟨rfl, rfl⟩ (.cons_cons ⟨rfl, rfl⟩ (.singleton _))), by simp; rfl⟩
  obtain ⟨inner, d, outer, hsplit, hbinds, hfree, hreaches⟩ :=
    (using_reaches_enclosing_table "x" hinner hnest).2.2 true _ rfl
  have hkeeps : Scopes.Keeps (threeFunctions ++ [.declare 3 "x" true]) [.assign 2 "x" (.int 5)] 3 "x" d.ownTable := by
    refine ⟨by simp, fun before a rest hlater => ?_⟩
    cases before with
    | nil =>
      cases hlater
      exact id
    | cons => simp at hlater
  refine ⟨_, mem_of_getElem? (i := 3) rfl, rfl, inner, d, outer, ?_, hreaches _ hkeeps, rfl⟩
  rcases inner with _ | ⟨e, _ | ⟨e', inner⟩⟩
  · cases hsplit
    exact absurd rfl hbinds
  · obtain ⟨rfl, -⟩ := List.cons.inj (List.cons.inj hsplit).2
    rfl
  · obtain ⟨rfl, -⟩ := List.cons.inj (List.cons.inj hsplit).2
    have hunbound := hfree _ (mem_cons_of_mem _ mem_cons_self)
    exact (hunbound (Option.ne_none_iff_exists'.2 ⟨.int 1, rfl⟩)).elim

end ScriptMachine
