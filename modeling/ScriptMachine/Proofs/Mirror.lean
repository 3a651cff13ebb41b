import ScriptMachine.Proofs.Tables

/-! Contexts and tables after any history of what can be done to them. -/

namespace ScriptMachine

open List

structure Scopes where
  contexts : List Context := []
  tables : Tables := {}

inductive ScopeAct where
  | module (name : String) (source : Source) (globals : Dict Value ⊕ Nat) (parent : Option Nat) (entry : Span)
  | nest (name : String) (lexical : Nat) (parent : Option Nat) (entry : Span)
  | assign (ctx : Nat) (name : String) (v : Value)
  | declare (ctx : Nat) (name : String) (parent : Bool)
  | remove (ctx : Nat) (name : String)

namespace Scopes

def add (s : Scopes) (r : Context × Tables) : Scopes := ⟨s.contexts ++ [r.1], r.2⟩

def act (s : Scopes) : ScopeAct → Scopes
  | .module name source (.inl entries) parent entry =>
    s.add (Context.ofModule name source s.tables.tables.size (parent.bind (s.contexts[·]?)) entry
      (s.tables.alloc entries).2)
  | .module name source (.inr host) parent entry =>
    match s.contexts[host]? with
    | some h => s.add (Context.ofModule name source h.root (parent.bind (s.contexts[·]?)) entry s.tables)
    | none => s
  | .nest name lexical parent entry =>
    match s.contexts[lexical]? with
    | some l => s.add (Context.nest name l (parent.bind (s.contexts[·]?)) entry s.tables)
    | none => s
  | .assign ctx name v =>
    match s.contexts[ctx]? with
    | some c => { s with tables := c.assign s.tables name v }
    | none => s
  | .declare ctx name parent =>
    match s.contexts[ctx]? with
    | some c =>
      match c.declare s.tables name parent with
      | .ok (_, t) => { s with tables := t }
      | .error _ => s
    | none => s
  | .remove ctx name =>
    match s.contexts[ctx]? with
    | some c => { s with tables := (c.remove s.tables name).2 }
    | none => s

def after (history : List ScopeAct) : Scopes := history.foldl act {}

def target? (s : Scopes) (ctx : Nat) (name : String) : Option Nat := s.contexts[ctx]?.map (·.home s.tables name)

/-- The context has written the name into this table. -/
def HasWritten (history : List ScopeAct) (name : String) (ctx id : Nat) : Prop :=
  ∃ before v, before ++ [.assign ctx name v] <+: history ∧ (after before).target? ctx name = some id

lemma HasWritten.longer {history : List ScopeAct} {name : String} {ctx id : Nat} (h : HasWritten history name ctx id)
    (a : ScopeAct) : HasWritten (history ++ [a]) name ctx id := by
  obtain ⟨before, v, hbefore, hid⟩ := h
  exact ⟨before, v, hbefore.trans (prefix_append _ _), hid⟩

end Scopes

namespace Tables

variable {t : Tables} {id other : Nat} {name x : String} {v : Value}

def Binds (t : Tables) (id : Nat) (name : String) : Prop := (t.table id).get? name ≠ none

lemma binds_set_self (h : id < t.tables.size) : (t.set id name v).Binds id name := by
  rw [Binds, table_set_self t name v h]
  simp

lemma Binds.set (h : t.Binds other x) : (t.set id name v).Binds other x := by
  by_cases hne : id ≠ other ∨ x ≠ name
  · rwa [Binds, get?_set hne]
  · rw [not_or, not_not, not_not] at hne
    obtain ⟨rfl, rfl⟩ := hne
    by_cases hid : id < t.tables.size
    · exact binds_set_self hid
    · have hnone : t.table id = [] := by simp [table, hid]
      rw [Binds, hnone] at h
      contradiction

lemma Binds.erase (h : t.Binds other x) (hne : id ≠ other ∨ x ≠ name) : (t.erase id name).Binds other x := by
  rwa [Binds, get?_erase hne]

lemma binds_of_set (h : (t.set id name v).Binds other x) : t.Binds other x ∨ id = other ∧ name = x := by
  by_cases hne : id ≠ other ∨ x ≠ name
  · rw [Binds, get?_set hne] at h
    exact .inl h
  · rw [not_or, not_not, not_not] at hne
    exact .inr ⟨hne.1, hne.2.symm⟩

lemma binds_of_erase (h : (t.erase id name).Binds other x) : t.Binds other x ∧ (id ≠ other ∨ x ≠ name) := by
  have hne : id ≠ other ∨ x ≠ name := by
    by_contra hboth
    rw [not_or, not_not, not_not] at hboth
    obtain ⟨rfl, rfl⟩ := hboth
    refine h ?_
    obtain ⟨tables, escapes⟩ := t
    rw [table, erase, Array.getD_eq_getD_getElem?, Array.getElem?_modify, if_pos rfl]
    cases tables[id]? with
    | none => rfl
    | some d => exact d.get?_erase_self x
  rw [Binds, get?_erase hne] at h
  exact ⟨h, hne⟩

lemma binds_alloc (h : id < t.tables.size) {entries : Dict Value} : (t.alloc entries).2.Binds id x ↔ t.Binds id x := by
  rw [Binds, Binds, table_alloc h]

lemma not_binds_alloc_nil (t : Tables) (x : String) : ¬ (t.alloc []).2.Binds t.tables.size x := by
  obtain ⟨tables, escapes⟩ := t
  simp [Binds, alloc, table, Array.getD_eq_getD_getElem?]

lemma binds_congr {t' : Tables} (h : t'.tables = t.tables) : t'.Binds id x ↔ t.Binds id x := by
  rw [Binds, Binds, table, table, h]

end Tables

namespace Context

variable {t : Tables} {name : String} {c : Context}

lemma root_mem (h : c.scope ≠ []) : c.root ∈ c.scope := by
  rw [root, getLastD_eq_getLast?, getLast?_eq_some_getLast h]
  exact getLast_mem h

section made

variable {b : Binding} {isParent : Bool} {t' : Tables} {n : String} {source : Source} {globals : Nat}
  {lexical : Context} {parent : Option Context} {entry : Span}

lemma size_ofModule : (ofModule n source globals parent entry t).2.tables.size = t.tables.size + 1 := Array.size_push _

lemma privates_ofModule : (ofModule n source globals parent entry t).1.privates = [t.tables.size] := rfl

lemma size_nest : (nest n lexical parent entry t).2.tables.size = t.tables.size + 2 := by
  simp [nest, Tables.alloc, Tables.allocEscapes]

lemma scope_nest : (nest n lexical parent entry t).1.scope = t.tables.size :: lexical.scope := rfl

lemma privates_nest : (nest n lexical parent entry t).1.privates = (t.tables.size + 1) :: lexical.privates := by
  simp [nest, Tables.alloc, Tables.allocEscapes]

lemma declare_ok (h : c.declare t name isParent = .ok (b, t')) :
    c.isGlobal = false ∧ t' = { t with escapes := t.escapes.modify c.escapes (·.insert name b) } ∧
      (isParent = true ∧ (∃ k, t.findOuter? c.scope name = some k ∧ b = .outer k) ∨
        isParent = false ∧ (t.table c.root).has name = true ∧ b = .global) := by
  unfold declare at h
  split at h
  · contradiction
  · rename_i hglobal
    refine ⟨Bool.eq_false_iff.2 hglobal, ?_⟩
    dsimp only at h
    split at h
    · rename_i hparent
      split at h
      · rename_i k hk
        cases h
        exact ⟨rfl, .inl ⟨hparent, k, hk, rfl⟩⟩
      · contradiction
    · rename_i hparent
      split at h
      · rename_i hroot
        cases h
        exact ⟨rfl, .inr ⟨Bool.eq_false_iff.2 hparent, hroot, rfl⟩⟩
      · contradiction

lemma tables_of_declare (h : c.declare t name isParent = .ok (b, t')) : t'.tables = t.tables := by
  obtain ⟨-, rfl, -⟩ := declare_ok h
  rfl

end made

lemma home_mem (h : c.scope ≠ []) : c.home t name ∈ c.scope := by
  have hroot := root_mem h
  unfold home chainOf
  cases c.binding t name with
  | here =>
    obtain ⟨id, ids, hs⟩ := exists_cons_of_ne_nil h
    simp [hs]
  | global => exact hroot
  | outer distance =>
    dsimp only
    split
    · exact hroot
    · rename_i hlt
      obtain ⟨id, ids, hs⟩ := exists_cons_of_ne_nil (drop_eq_nil_iff.not.2 hlt)
      rw [hs]
      exact mem_of_mem_drop (hs ▸ mem_cons_self)

end Context

namespace Scopes

structure Laid (s : Scopes) : Prop where
  scope : ∀ c ∈ s.contexts, c.scope ≠ []
  privates : ∀ c ∈ s.contexts, c.privateTable ∈ c.privates
  scope_lt : ∀ c ∈ s.contexts, ∀ id ∈ c.scope, id < s.tables.tables.size
  private_lt : ∀ c ∈ s.contexts, ∀ id ∈ c.privates, id < s.tables.tables.size
  apart : ∀ c ∈ s.contexts, ∀ d ∈ s.contexts, ∀ id ∈ c.scope, id ∉ d.privates
  own : (s.contexts.map Context.privateTable).Nodup
  chain : ∀ c ∈ s.contexts, ∀ id ∈ c.privates, ∃ d ∈ s.contexts, d.privateTable = id ∧ d.scope ⊆ c.scope

namespace Laid

variable {s : Scopes}

lemma add (h : s.Laid) {r : Context × Tables} (own : Nat) (others : List Nat)
    (hsize : s.tables.tables.size ≤ r.2.tables.size) (hscope : r.1.scope ≠ [])
    (htables : ∀ id ∈ r.1.scope, id < r.2.tables.size ∧
      (s.tables.tables.size ≤ id ∨ ∃ d ∈ s.contexts, id ∈ d.scope))
    (hprivates : r.1.privates = own :: others) (hown : s.tables.tables.size ≤ own) (hlt : own < r.2.tables.size)
    (hnot : own ∉ r.1.scope) (hothers : ∀ id ∈ others, ∃ d ∈ s.contexts, d.privateTable = id ∧ d.scope ⊆ r.1.scope) :
    (s.add r).Laid := by
  have hprivate : r.1.privateTable = own := by rw [Context.privateTable, hprivates]; rfl
  have hold : ∀ d ∈ s.contexts, d.privateTable < s.tables.tables.size :=
    fun d hd => h.private_lt d hd _ (h.privates d hd)
  have hother_lt : ∀ id ∈ others, id < s.tables.tables.size := by
    intro id hid
    obtain ⟨d, hd, rfl, -⟩ := hothers id hid
    exact hold d hd
  have hnew : ∀ id ∈ r.1.scope, ∀ d ∈ s.contexts, id ∉ d.privates := by
    intro id hid d hd hmem
    rcases (htables id hid).2 with hfresh | ⟨e, he, hide⟩
    · exact absurd (h.private_lt d hd id hmem) (Nat.not_lt.2 hfresh)
    · exact h.apart e he d hd id hide hmem
  have happend {p : Context → Prop} (hs : ∀ d ∈ s.contexts, p d) (hc : p r.1) : ∀ d ∈ (s.add r).contexts, p d := by
    simpa [Scopes.add, or_imp, forall_and] using ⟨hs, hc⟩
  constructor
  case scope => exact happend h.scope hscope
  case privates =>
    refine happend h.privates ?_
    rw [hprivate, hprivates]
    exact mem_cons_self
  case scope_lt =>
    exact happend (fun d hd id hid => Nat.lt_of_lt_of_le (h.scope_lt d hd id hid) hsize) fun id hid =>
      (htables id hid).1
  case private_lt =>
    refine happend (fun d hd id hid => Nat.lt_of_lt_of_le (h.private_lt d hd id hid) hsize) ?_
    rw [hprivates]
    exact forall_mem_cons.2 ⟨hlt, fun id hid => Nat.lt_of_lt_of_le (hother_lt id hid) hsize⟩
  case apart =>
    refine happend (fun d hd => happend (h.apart d hd) ?_) (happend (fun d hd id hid => hnew id hid d hd) ?_)
    · intro id hid
      rw [hprivates, mem_cons, not_or]
      refine ⟨(Nat.lt_of_lt_of_le (h.scope_lt d hd id hid) hown).ne, fun hmem => ?_⟩
      obtain ⟨e, he, rfl, -⟩ := hothers id hmem
      exact h.apart d hd e he _ hid (h.privates e he)
    · intro id hid
      rw [hprivates, mem_cons, not_or]
      refine ⟨fun heq => hnot (heq ▸ hid), fun hmem => ?_⟩
      obtain ⟨e, he, rfl, -⟩ := hothers id hmem
      exact hnew _ hid e he (h.privates e he)
  case own =>
    have hfresh : own ∉ s.contexts.map Context.privateTable := by
      intro hmem
      obtain ⟨d, hd, heq⟩ := mem_map.1 hmem
      exact absurd (heq ▸ hold d hd) (Nat.not_lt.2 hown)
    simpa [Scopes.add, hprivate, nodup_append] using ⟨h.own, fun d hd heq => hfresh (mem_map.2 ⟨d, hd, heq⟩)⟩
  case chain =>
    have hkeep : ∀ d ∈ s.contexts, d ∈ (s.add r).contexts := fun d hd => mem_append_left _ hd
    refine happend (fun d hd id hid => ?_) ?_
    · obtain ⟨e, he, hrest⟩ := h.chain d hd id hid
      exact ⟨e, hkeep e he, hrest⟩
    · rw [hprivates]
      refine forall_mem_cons.2 ⟨⟨r.1, by simp [Scopes.add], hprivate, List.Subset.refl _⟩, fun id hid => ?_⟩
      obtain ⟨e, he, hrest⟩ := hothers id hid
      exact ⟨e, hkeep e he, hrest⟩

lemma setTables (h : s.Laid) {t : Tables} (ht : t.tables.size = s.tables.tables.size) :
    Laid { s with tables := t } where
  scope := h.scope
  privates := h.privates
  scope_lt c hc id hid := ht ▸ h.scope_lt c hc id hid
  private_lt c hc id hid := ht ▸ h.private_lt c hc id hid
  apart := h.apart
  own := h.own
  chain := h.chain

lemma act (h : s.Laid) (a : ScopeAct) : (s.act a).Laid := by
  cases a with
  | module name source globals parent entry =>
    cases globals with
    | inl entries =>
      have hsize : (s.tables.alloc entries).2.tables.size = s.tables.tables.size + 1 := Array.size_push _
      refine h.add (s.tables.tables.size + 1) [] ?_ (cons_ne_nil _ _) ?_ (hsize ▸ Context.privates_ofModule)
        (Nat.le_succ _) ?_ ?_ (forall_mem_nil _)
      · rw [Context.size_ofModule, hsize]
        omega
      · rw [Context.size_ofModule, hsize]
        exact forall_mem_singleton.2 ⟨by omega, .inl (Nat.le_refl _)⟩
      · rw [Context.size_ofModule, hsize]
        exact Nat.lt_succ_self _
      · exact fun hmem => absurd (mem_singleton.1 hmem) (Nat.succ_ne_self _)
    | inr host =>
      simp only [Scopes.act]
      split
      · rename_i c hc
        have hmem := mem_of_getElem? hc
        have hroot := Context.root_mem (h.scope c hmem)
        have hlt := h.scope_lt c hmem _ hroot
        refine h.add s.tables.tables.size [] ?_ (cons_ne_nil _ _) ?_ Context.privates_ofModule (Nat.le_refl _) ?_ ?_
          (forall_mem_nil _)
        · rw [Context.size_ofModule]
          exact Nat.le_succ _
        · rw [Context.size_ofModule]
          exact forall_mem_singleton.2 ⟨Nat.lt_succ_of_lt hlt, .inr ⟨c, hmem, hroot⟩⟩
        · rw [Context.size_ofModule]
          exact Nat.lt_succ_self _
        · exact fun hown => absurd (mem_singleton.1 hown) hlt.ne'
      · exact h
  | nest name lexical parent entry =>
    simp only [Scopes.act]
    split
    · rename_i c hc
      have hmem := mem_of_getElem? hc
      have hlt := h.scope_lt c hmem
      refine h.add (s.tables.tables.size + 1) c.privates ?_ (cons_ne_nil _ _) ?_ Context.privates_nest (Nat.le_succ _)
        ?_ ?_ ?_
      · rw [Context.size_nest]
        omega
      · rw [Context.size_nest, Context.scope_nest]
        refine forall_mem_cons.2 ⟨⟨by omega, .inl (Nat.le_refl _)⟩, fun id hid => ⟨?_, .inr ⟨c, hmem, hid⟩⟩⟩
        exact Nat.lt_succ_of_lt (Nat.lt_succ_of_lt (hlt id hid))
      · rw [Context.size_nest]
        exact Nat.lt_succ_self _
      · rw [Context.scope_nest, mem_cons, not_or]
        exact ⟨Nat.succ_ne_self _, fun hid => absurd (hlt _ hid) (Nat.not_lt.2 (Nat.le_succ _))⟩
      · intro id hid
        obtain ⟨d, hd, hown, hsub⟩ := h.chain c hmem id hid
        exact ⟨d, hd, hown, subset_cons_of_subset _ hsub⟩
    · exact h
  | assign ctx name v =>
    simp only [Scopes.act]
    split
    · exact h.setTables (by simp [Context.assign])
    · exact h
  | declare ctx name parent =>
    simp only [Scopes.act]
    split
    · split
      · rename_i hdeclared
        exact h.setTables (congrArg Array.size (Context.tables_of_declare hdeclared))
      · exact h
    · exact h
  | remove ctx name =>
    simp only [Scopes.act]
    split
    · exact h.setTables (by simp [Context.remove])
    · exact h

end Laid

def Mirrors (history : List ScopeAct) (name : String) (s : Scopes) : Prop :=
  ∀ i c, s.contexts[i]? = some c → s.tables.Binds c.privateTable name →
    ∃ id ∈ c.scope, s.tables.Binds id name ∧ HasWritten history name i id

namespace Mirrors

variable {s : Scopes} {history : List ScopeAct} {name : String}

variable (h : s.Mirrors history name)
include h

lemma add (hl : s.Laid) {r : Context × Tables}
    (hkept : ∀ id < s.tables.tables.size, r.2.Binds id name ↔ s.tables.Binds id name)
    (hnew : ¬ r.2.Binds r.1.privateTable name) : (s.add r).Mirrors history name := by
  intro i c hc hbinds
  by_cases hi : i < s.contexts.length
  · rw [Scopes.add, getElem?_append_left hi] at hc
    have hmem := mem_of_getElem? hc
    have hprivate := hl.private_lt c hmem _ (hl.privates c hmem)
    obtain ⟨id, hid, hbound, hwritten⟩ := h i c hc ((hkept _ hprivate).1 hbinds)
    exact ⟨id, hid, (hkept id (hl.scope_lt c hmem id hid)).2 hbound, hwritten⟩
  · rw [Scopes.add, getElem?_append_right (Nat.not_lt.1 hi)] at hc
    obtain rfl := mem_singleton.1 (mem_of_getElem? hc)
    exact absurd hbinds hnew

lemma assign (hl : s.Laid) (hs : after history = s) {k : Nat} {c : Context} (hc : s.contexts[k]? = some c)
    (x : String) (v : Value) :
    Mirrors (history ++ [.assign k x v]) name { s with tables := c.assign s.tables x v } := by
  intro i d hd hbinds
  have hcmem := mem_of_getElem? hc
  have hdmem := mem_of_getElem? hd
  have hhome : c.home s.tables x ∈ c.scope := Context.home_mem (hl.scope c hcmem)
  rcases Tables.binds_of_set hbinds with hbinds | ⟨hsame, rfl⟩
  · rcases Tables.binds_of_set hbinds with hbinds | ⟨hsame, rfl⟩
    · obtain ⟨id, hid, hbound, hwritten⟩ := h i d hd hbinds
      exact ⟨id, hid, hbound.set.set, hwritten.longer _⟩
    · exact absurd (hsame ▸ hl.privates d hdmem) (hl.apart c hcmem d hdmem _ hhome)
  · have hplace : k < (s.contexts.map Context.privateTable).length := by
      simpa using (List.getElem?_eq_some_iff.1 hc).1
    obtain rfl : k = i := (getElem?_inj hplace hl.own).1 (by simp [hc, hd, hsame])
    obtain rfl := Option.some.inj (hc.symm.trans hd)
    refine ⟨_, hhome, (Tables.binds_set_self ?_).set, history, v, prefix_rfl, by simp [hs, target?, hc]⟩
    exact hl.scope_lt c hcmem _ hhome

lemma remove (hl : s.Laid) {k : Nat} {c : Context} (hc : s.contexts[k]? = some c) {x : String}
    (hwriter : x = name → ∀ i, HasWritten history name i (c.home s.tables x) → i = k) :
    Mirrors (history ++ [.remove k x]) name { s with tables := (c.remove s.tables x).2 } := by
  intro i d hd hbinds
  have hcmem := mem_of_getElem? hc
  obtain ⟨hbinds, hprivate⟩ := Tables.binds_of_erase hbinds
  obtain ⟨hbinds, -⟩ := Tables.binds_of_erase hbinds
  obtain ⟨id, hid, hbound, hwritten⟩ := h i d hd hbinds
  refine ⟨id, hid, (hbound.erase ?_).erase (.inl fun hsame => ?_), hwritten.longer _⟩
  · by_contra hsame
    rw [not_or, not_not, not_not] at hsame
    obtain ⟨rfl, rfl⟩ := hsame
    obtain rfl := hwriter rfl i hwritten
    obtain rfl := Option.some.inj (hc.symm.trans hd)
    simp at hprivate
  · exact hl.apart d (mem_of_getElem? hd) c hcmem id hid (hsame ▸ hl.privates c hcmem)

lemma longer (a : ScopeAct) : s.Mirrors (history ++ [a]) name := by
  intro i c hc hbinds
  obtain ⟨id, hid, hbound, hwritten⟩ := h i c hc hbinds
  exact ⟨id, hid, hbound, hwritten.longer a⟩

lemma act (hl : s.Laid) (hs : after history = s) (a : ScopeAct) (hwriter : ∀ k id, a = .remove k name →
      s.target? k name = some id → ∀ i, HasWritten history name i id → i = k) :
    (s.act a).Mirrors (history ++ [a]) name := by
  have halloc (entries : Dict Value) {id : Nat} (hid : id < s.tables.tables.size) :
      ((s.tables.alloc entries).2.alloc []).2.Binds id name ↔ s.tables.Binds id name := by
    have hsize : (s.tables.alloc entries).2.tables.size = s.tables.tables.size + 1 := Array.size_push _
    exact (Tables.binds_alloc (by omega)).trans (Tables.binds_alloc hid)
  cases a with
  | module n source globals parent entry =>
    refine longer ?_ _
    cases globals with
    | inl entries =>
      exact h.add hl (fun id hid => halloc entries hid) ((s.tables.alloc entries).2.not_binds_alloc_nil name)
    | inr host =>
      simp only [Scopes.act]
      split
      · exact h.add hl (fun id hid => Tables.binds_alloc hid) (s.tables.not_binds_alloc_nil name)
      · exact h
  | nest n lexical parent entry =>
    refine longer ?_ _
    simp only [Scopes.act]
    split
    · exact h.add hl (fun id hid => halloc [] hid) ((s.tables.alloc []).2.not_binds_alloc_nil name)
    · exact h
  | assign ctx x v =>
    simp only [Scopes.act]
    split
    · rename_i hc
      exact h.assign hl hs hc x v
    · exact h.longer _
  | declare ctx x parent =>
    refine longer ?_ _
    simp only [Scopes.act]
    split
    · split
      · rename_i hdeclared
        have hsame := Context.tables_of_declare hdeclared
        intro i d hd hbinds
        obtain ⟨id, hid, hbound, hwritten⟩ := h i d hd ((Tables.binds_congr hsame).1 hbinds)
        exact ⟨id, hid, (Tables.binds_congr hsame).2 hbound, hwritten⟩
      · exact h
    · exact h
  | remove ctx x =>
    simp only [Scopes.act]
    split
    · rename_i hc
      exact h.remove hl hc fun hx => hwriter ctx _ (by rw [hx]) (by simp [target?, hc, hx])
    · exact h.longer _

end Mirrors

lemma laid_after (history : List ScopeAct) : (after history).Laid := by
  induction history using reverseRecOn with
  | nil => constructor <;> simp [after]
  | append_singleton history a ih =>
    rw [after, foldl_concat]
    exact ih.act a

/-- A context that deletes the name from a table is the only one that has written it there before. -/
def DeletedByWriter (history : List ScopeAct) (name : String) : Prop :=
  ∀ before k id, before ++ [.remove k name] <+: history → (after before).target? k name = some id →
    ∀ i, HasWritten before name i id → i = k

lemma mirrors_after {history : List ScopeAct} {name : String} (h : DeletedByWriter history name) :
    (after history).Mirrors history name := by
  induction history using reverseRecOn with
  | nil => exact fun i c hc => absurd hc (by simp [after])
  | append_singleton history a ih =>
    have hbefore : DeletedByWriter history name := fun before k id hle =>
      h before k id (hle.trans (prefix_append _ _))
    rw [after, foldl_concat]
    exact (ih hbefore).act (laid_after history) rfl a fun k id ha => h history k id (ha ▸ prefix_rfl)

end Scopes

/-- Where a name is deleted from a table only by the context that has written it there, a private table is never seen:
a name that a context has not declared with `using` is what its scope says. -/
theorem lookup_eq_scope_of_deletedByWriter {history : List ScopeAct} {name : String} {c : Context}
    (h : Scopes.DeletedByWriter history name) (hc : c ∈ (Scopes.after history).contexts)
    (hb : c.binding (Scopes.after history).tables name = .here) :
    c.lookup (Scopes.after history).tables name = (Scopes.after history).tables.find? c.scope name := by
  have hmirrors := Scopes.mirrors_after h
  have hlaid := Scopes.laid_after history
  generalize Scopes.after history = s at *
  rw [Context.lookup, hb]
  cases hscope : s.tables.find? c.scope name with
  | some v => rfl
  | none =>
    rw [Option.none_or]
    refine findSome?_eq_none_iff.2 fun id hid => ?_
    by_contra hbinds
    obtain ⟨d, hd, rfl, hsub⟩ := hlaid.chain c hc id hid
    obtain ⟨i, hi⟩ := mem_iff_getElem?.1 hd
    obtain ⟨id, hid, hbound, -⟩ := hmirrors i d hi hbinds
    exact hbound (findSome?_eq_none_iff.1 hscope id (hsub hid))

/-- A function binds a name of its own and deletes it, while a function inside of it could still read it. -/
theorem lookup_eq_scope_in_closure :
    let history : List ScopeAct := [.module "<program>" ⟨"", ""⟩ (.inl [("y", .int 1)]) none (Span.point 0),
      .nest "f" 0 (some 0) (Span.point 0), .assign 1 "x" (.int 2), .nest "g" 1 (some 1) (Span.point 0), .remove 1 "x"]
    ∃ c ∈ (Scopes.after history).contexts, c.name = "g" ∧
      Scopes.DeletedByWriter history "x" ∧ c.binding (Scopes.after history).tables "x" = .here ∧
        c.lookup (Scopes.after history).tables "x" = (Scopes.after history).tables.find? c.scope "x" := by
  intro history
  have hdeleted : Scopes.DeletedByWriter history "x" := by
    rintro before k id hbefore - i ⟨earlier, v, hearlier, -⟩
    have hremove : .remove k "x" ∈ history := hbefore.subset (by simp)
    have hassign : .assign i "x" v ∈ history := hbefore.subset (mem_append_left _ (hearlier.subset (by simp)))
    simp_all [history]
  have hmem : (Scopes.after history).contexts.getLast (by decide) ∈ (Scopes.after history).contexts := getLast_mem _
  have hbinding : ((Scopes.after history).contexts.getLast (by decide)).binding
    (Scopes.after history).tables "x" = .here := by
    decide
  exact ⟨_, hmem, by decide, hdeleted, hbinding, lookup_eq_scope_of_deletedByWriter hdeleted hmem hbinding⟩

/-- A function deletes a global name that the program has written: the program still gets the old value. -/
theorem lookup_stale_after_foreign_removal :
    let history : List ScopeAct := [.module "<program>" ⟨"", ""⟩ (.inl []) none (Span.point 0),
      .nest "f" 0 (some 0) (Span.point 0), .assign 0 "x" (.int 1), .declare 1 "x" false, .remove 1 "x"]
    ∃ c ∈ (Scopes.after history).contexts, c.name = "<program>" ∧
      c.binding (Scopes.after history).tables "x" = .here ∧ (Scopes.after history).tables.find? c.scope "x" = none ∧
        c.lookup (Scopes.after history).tables "x" = some (.int 1) := by
  intro history
  refine ⟨(Scopes.after history).contexts.head (by decide), head_mem _, ?_⟩
  exact ⟨by decide, by decide, rfl, rfl⟩

end ScriptMachine
