import ScriptMachine.Proofs.Evaluation
import ScriptMachine.Proofs.Mirror

/-! Runs of a task that is alone and changes the world on its way, and names that are read again after they have been
assigned. -/

namespace ScriptMachine

open List

namespace Context

structure Stands (c : Context) (t : Tables) : Prop where
  scope : c.scope ≠ []
  lt : ∀ id ∈ c.scope, id < t.tables.size

variable {c : Context} {t : Tables} {name other : String} {v : Value}

lemma binding_assign : c.binding (c.assign t name v) other = c.binding t other := rfl

lemma chainOf_assign : c.chainOf (c.assign t name v) other = c.chainOf t other := by
  rw [chainOf, chainOf, binding_assign]

lemma chainOf_eq_cons (h : c.scope ≠ []) : ∃ rest, c.chainOf t name = c.home t name :: rest := by
  have hne : c.chainOf t name ≠ [] := by
    unfold chainOf
    split
    · exact h
    · exact cons_ne_nil _ _
    · split
      · exact cons_ne_nil _ _
      · rename_i hlt
        exact drop_eq_nil_iff.not.2 hlt
  obtain ⟨id, rest, hchain⟩ := exists_cons_of_ne_nil hne
  exact ⟨rest, by rw [home, hchain]; rfl⟩

lemma Stands.assign (h : c.Stands t) : c.Stands (c.assign t name v) :=
  ⟨h.scope, fun id hid => by simpa only [Context.assign, Tables.size_set] using h.lt id hid⟩

lemma get?_home_assign (h : c.Stands t) : ((c.assign t name v).table (c.home t name)).get? name = some v := by
  have hlt : c.home t name < t.tables.size := h.lt _ (home_mem h.scope)
  rw [Context.assign]
  by_cases hp : c.privateTable = c.home t name
  · rw [hp]
    exact Tables.table_set_self _ name v (by rwa [Tables.size_set])
  · rw [Tables.get?_set (.inl hp)]
    exact Tables.table_set_self _ name v hlt

theorem lookup_assign_self (h : c.Stands t) : c.lookup (c.assign t name v) name = some v := by
  obtain ⟨rest, hchain⟩ : ∃ rest, c.chainOf t name = c.home t name :: rest := chainOf_eq_cons h.scope
  have hfind : (c.assign t name v).find? (c.chainOf t name) name = some v := by
    rw [hchain, Tables.find?, findSome?_cons, get?_home_assign h]
  unfold lookup
  rw [binding_assign, chainOf_assign]
  split
  · rename_i hhere
    rw [chainOf, hhere] at hfind
    rw [hfind, Option.some_or]
  · exact hfind

lemma get?_assign_of_ne (h : other ≠ name) (id : Nat) :
    ((c.assign t name v).table id).get? other = (t.table id).get? other := by
  rw [Context.assign, Tables.get?_set (.inr h), Tables.get?_set (.inr h)]

end Context

def World.assigned (w : World) (ctx : Context) (name : String) (v : Value) : World :=
  { w with tables := ctx.assign w.tables name v }

def freshEntry : Context × State := (Session.start ⟨⟨""⟩, 10⟩ [] ⟨[], [], []⟩ []).entry ⟨"", ""⟩

lemma stands_freshEntry : freshEntry.1.Stands freshEntry.2.world.tables := by
  refine ⟨cons_ne_nil _ _, fun id hid => ?_⟩
  obtain rfl := mem_singleton.1 hid
  decide

abbrev Stage := World × Control × List Frame

structure Stage.Leads (t : Task) (a b : Stage) : Prop where
  busy (clock : Nat) : State.isBusy ⟨a.1, t.doing a.2 clock⟩ = true
  step (clock : Nat) : State.step ⟨a.1, t.doing a.2 clock⟩ = ⟨b.1, t.doing b.2 clock⟩
  born : b.1.born = a.1.born

def Stage.Comes (t : Task) : Stage → Stage → Prop := Relation.ReflTransGen (Leads t)

variable {t : Task}

lemma Goes.comes {w : World} {a b : Control × List Frame} (h : Goes w t a b) : Stage.Comes t (w, a) (w, b) := by
  induction h with
  | refl => exact .refl
  | tail _ hs ih => exact ih.tail ⟨fun clock => (hs clock).1, fun clock => (hs clock).2, rfl⟩

lemma Stage.Comes.runs {a b : Stage} (h : Stage.Comes t a b) (hborn : a.1.born = []) (clock : Nat) :
    ∃ clock', State.Runs ⟨a.1, t.doing a.2 clock⟩ ⟨b.1, t.doing b.2 clock'⟩ := by
  have hruns : b.1.born = [] ∧ ∃ clock', State.Runs ⟨a.1, t.doing a.2 clock⟩ ⟨b.1, t.doing b.2 clock'⟩ := by
    induction h with
    | refl => exact ⟨hborn, clock, .refl⟩
    | @tail b c _ hs ih =>
      obtain ⟨hb, clock', hruns⟩ := ih
      have hc : c.1.born = [] := hs.born.trans hb
      refine ⟨hc, clock' + Machine.stepTime, hruns.tail ⟨hs.busy clock', ?_, ?_⟩⟩
      · rw [hs.step]
        exact hc
      · rw [hs.step]
        rfl
  exact hruns.2

end ScriptMachine
