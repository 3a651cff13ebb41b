import ScriptMachine.Proofs.Evaluation
import ScriptMachine.Proofs.Policy.Steps

/-! Tasks side by side, and programs one after the other. -/

namespace ScriptMachine

open List

namespace Machine

variable {m m' : Machine} {place : Nat} {t : Task}

lemma tasks_setTask :
    (m.setTask place t).tasks = if place ≠ 0 ∧ t.isOver then m.tasks.eraseIdx place else m.tasks.set place t := by
  cases place with
  | zero => rfl
  | succ p =>
    simp only [setTask, tasks]
    cases t.isOver <;> simp

lemma tasks_adopt : m.adopt.tasks = m.tasks ++ m.world.born := by
  unfold adopt
  split
  · rename_i hborn
    rw [hborn, append_nil]
  · rfl

lemma world_adopt : m.adopt.world = { m.world with born := [] } := by
  unfold adopt
  split
  · rename_i hborn
    rw [← hborn]
  · rfl

lemma stepAt_eq (time : Nat) (ht : m.tasks[place]? = some t) : m.stepAt place time =
      (({ m with world := (State.step ⟨m.world, { t with clock := time }⟩).world, now := time } : Machine).setTask place
        (State.step ⟨m.world, { t with clock := time }⟩).tick.task).adopt := by
  simp only [stepAt, ht]
  rfl

lemma world_setTask : (m.setTask place t).world = m.world := by
  cases place <;> rfl

lemma mem_tasks_stepAt {time : Nat} {t' : Task} (ht : m.tasks[place]? = some t) (h : t' ∈ (m.stepAt place time).tasks) :
    t' ∈ m.tasks ∨ t' = (State.step ⟨m.world, { t with clock := time }⟩).tick.task ∨
      t' ∈ (State.step ⟨m.world, { t with clock := time }⟩).world.born := by
  rw [stepAt_eq time ht, tasks_adopt, world_setTask, tasks_setTask] at h
  rcases mem_append.1 h with h | h
  · split at h
    · exact .inl (mem_of_mem_eraseIdx h)
    · rcases mem_or_eq_of_mem_set h with h | h
      · exact .inl h
      · exact .inr (.inl h)
  · exact .inr (.inr h)

structure Steady (W : World → Prop) (T : Task → Prop) : Prop where
  born {w : World} : W w → ∀ t ∈ w.born, T t
  adopt {w : World} : W w → W { w with born := [] }
  clock {t : Task} (time : Nat) : T t → T { t with clock := time }

structure Upheld (W : World → Prop) (T : Task → Prop) : Prop extends Steady W T where
  step {w : World} {t : Task} : W w → T t → W (State.step ⟨w, t⟩).world ∧ T (State.step ⟨w, t⟩).task

variable {W : World → Prop} {T : Task → Prop}

def Holds (W : World → Prop) (T : Task → Prop) (m : Machine) : Prop := W m.world ∧ ∀ t ∈ m.tasks, T t

lemma Holds.stepAt_of (hu : Steady W T) (h : m.Holds W T) (place time : Nat)
    (hstep : ∀ t, m.tasks[place]? = some t → W (State.step ⟨m.world, { t with clock := time }⟩).world ∧
      T (State.step ⟨m.world, { t with clock := time }⟩).task) : (m.stepAt place time).Holds W T := by
  cases ht : m.tasks[place]? with
  | none => simpa only [Machine.stepAt, ht] using h
  | some t =>
    obtain ⟨hworld, htask⟩ := hstep t ht
    refine ⟨?_, fun t' ht' => ?_⟩
    · rw [stepAt_eq time ht, world_adopt, world_setTask]
      exact hu.adopt hworld
    · rcases mem_tasks_stepAt ht ht' with ht' | rfl | ht'
      · exact h.2 t' ht'
      · exact hu.clock _ htask
      · exact hu.born hworld t' ht'

lemma Holds.stepAt (hu : Upheld W T) (h : m.Holds W T) (place time : Nat) : (m.stepAt place time).Holds W T :=
  h.stepAt_of hu.toSteady place time fun t ht => hu.step h.1 (hu.clock time (h.2 t (mem_of_getElem? ht)))

theorem reaches_of_finish (h : m.finish = some m') : m.Reaches m' := by
  refine finish.partial_correctness Reaches (fun finish ih m m' h => ?_) m m' h
  split at h
  · exact Option.some.inj h ▸ .refl
  · rename_i hover
    split at h
    · rename_i time place hnext
      have hstep : m.step = some (m.stepAt place time) := by rw [step, hnext]; rfl
      exact .head ⟨by simpa using hover, hstep⟩ (ih _ _ h)
    · exact Option.some.inj h ▸ .refl

end Machine

namespace Session

variable {s : Session} {W : World → Prop} {T : Task → Prop}

inductive After (s : Session) : Session → Prop
  | refl : After s s
  | run {s' : Session} (name text : String) : After s s' → After s (s'.run name text).2

def Holds (W : World → Prop) (T : Task → Prop) (s : Session) : Prop := W s.world ∧ ∀ t ∈ s.others, T t

end Session

section policy

variable {P : Policy} {settings : Settings} {argv : List String} {files : FileTree} {input : List UInt8}
  {source : Source}

lemma covers_start {C : Contents} : C.Covers (Session.start settings argv files input).world := by
  refine ⟨?_, ⟨?_, ?_⟩, ?_, ?_, ?_, ?_, ?_, ?_, ?_⟩
  · intro d hd
    obtain rfl := Array.mem_singleton.1 hd
    exact Contents.entries_initialGlobals
  all_goals exact fun _ hx => absurd hx (by simp [Session.start])

namespace Policy

variable {s : Session}

lemma holds_entry (hw : P.Covers s.world) (ht : P.tables (s.entry source).2.world.tables) :
    P.Holds [] (s.entry source).2 := by
  have hb : P.bindings (s.entry source).2.world.tables := bindings_moduleContext hw.bindings
  exact ⟨{ hw with bindings := hb }, ht, [], rfl, forall_mem_nil _⟩

def shared (P : Policy) (w : World) : Prop := P.Covers w ∧ P.tables w.tables

lemma steady : Machine.Steady P.shared (P.task []) where
  born hw t ht := task_of_starting (hw.1.born t ht)
  adopt hw := ⟨{ hw.1 with born := forall_mem_nil _ }, hw.2⟩
  clock _ ht := ht

lemma Lawful.step (L : P.Lawful) {w : World} {t : Task} (hs : P.sees ⟨w, t⟩) (hw : P.shared w) (ht : P.task [] t) :
    P.shared (State.step ⟨w, t⟩).world ∧ P.task [] (State.step ⟨w, t⟩).task := by
  have hready : P.Ready [] ⟨w, t⟩ := ⟨⟨hw.1, hw.2, ht.1⟩, ht.2⟩
  have hstep := hready.step L hs (.inl rfl)
  exact ⟨⟨hstep.world, hstep.tables⟩, hstep.stack, hstep.control⟩

lemma holds_launch (L : P.Lawful) {m : Module} (h : s.Holds P.shared (P.task []))
    (ht : P.tables (s.entry source).2.world.tables) (hc : P.units m.statements (s.entry source).1) :
    (s.launch source m).Holds P.shared (P.task []) := by
  have hready := (holds_entry h.1.1 ht).runStatements L (v := .nil) trivial hc
  exact ⟨⟨hready.world, hready.tables⟩, forall_mem_cons.2 ⟨⟨hready.stack, hready.control⟩, h.2⟩⟩

end Policy

end policy

end ScriptMachine
