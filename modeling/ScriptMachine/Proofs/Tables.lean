import Mathlib
import ScriptMachine.Scope

/-! Entries of finite maps, and tables that operations leave as they are. -/

namespace ScriptMachine

open List

namespace Dict

variable {α : Type} {d : Dict α} {key : String} {a : α}

lemma mem_of_get? (h : d.get? key = some a) : (key, a) ∈ d := by
  induction d with
  | nil => contradiction
  | cons e d ih =>
    rw [get?] at h
    split at h
    · rename_i hkey
      cases h
      exact hkey ▸ mem_cons_self
    · exact mem_cons_of_mem _ (ih h)

lemma forall_mem_insert {p : String × α → Prop} (hd : ∀ e ∈ d, p e) (ha : p (key, a)) : ∀ e ∈ d.insert key a, p e := by
  induction d with
  | nil => exact forall_mem_singleton.2 ha
  | cons e d ih =>
    obtain ⟨hfirst, hrest⟩ := forall_mem_cons.1 hd
    rw [insert]
    split
    · exact forall_mem_cons.2 ⟨ha, hrest⟩
    · split
      · exact forall_mem_cons.2 ⟨ha, hd⟩
      · exact forall_mem_cons.2 ⟨hfirst, ih hrest⟩

end Dict

namespace Tables

variable {t : Tables} {id other : Nat} {name x : String}

lemma table_alloc (h : id < t.tables.size) (entries : Dict Value) : (t.alloc entries).2.table id = t.table id := by
  obtain ⟨tables, escapes⟩ := t
  have hne : id ≠ tables.size := Nat.ne_of_lt h
  simp [alloc, table, Array.getD_eq_getD_getElem?, Array.getElem?_push, hne]

lemma table_modify {f : Dict Value → Dict Value} (hf : ∀ d, (f d).get? x = d.get? x) :
    (Array.getD (t.tables.modify id f) other []).get? x = (t.table other).get? x := by
  rw [table, Array.getD_eq_getD_getElem?, Array.getD_eq_getD_getElem?, Array.getElem?_modify]
  split
  · cases t.tables[other]? with
    | none => rfl
    | some d => exact hf d
  · rfl

lemma get?_set {v : Value} (h : id ≠ other ∨ x ≠ name) :
    ((t.set id name v).table other).get? x = (t.table other).get? x := by
  rcases h with h | h
  · rw [table_set_of_ne t name v h]
  · exact table_modify fun d => d.get?_insert_of_ne v h

lemma get?_erase (h : id ≠ other ∨ x ≠ name) :
    ((t.erase id name).table other).get? x = (t.table other).get? x := by
  rcases h with h | h
  · obtain ⟨tables, escapes⟩ := t
    simp [erase, table, Array.getD_eq_getD_getElem?, Array.getElem?_modify, h]
  · exact table_modify fun d => d.get?_erase_of_ne h

@[simp] lemma size_set {v : Value} : (t.set id name v).tables.size = t.tables.size := Array.size_modify

@[simp] lemma size_erase : (t.erase id name).tables.size = t.tables.size := Array.size_modify

end Tables

end ScriptMachine
