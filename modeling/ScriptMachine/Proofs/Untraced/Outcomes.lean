import ScriptMachine.Proofs.Runs
import ScriptMachine.Proofs.Untraced.Steps

/-! Runs without places. Machines that are alike but for places take the same steps, so they end alike or neither
ends. -/

namespace ScriptMachine

open List

namespace Erasure

variable {e : Erasure} {m m' : Machine} {t : Task} {place time : Nat}

@[simp] lemma isOver_task : (e.task t).isOver = t.isOver := by
  obtain ⟨control, stack, depth, deadline, thread, clock⟩ := t
  cases control <;> cases stack <;> rfl

lemma readyAt?_task {w : World} {now : Nat} :
    Machine.readyAt? (e.world w) now (e.task t) = Machine.readyAt? w now t := by
  obtain ⟨control, stack, depth, deadline, thread, clock⟩ := t
  cases control with
  | wait wait => exact wakeTime?_state (s := ⟨w, .wait wait, stack, depth, deadline, thread, clock⟩)
  | _ => rfl

lemma earliest_tasks {w : World} {now : Nat} {tasks : List Task} :
    Machine.earliest (e.world w) now place (tasks.map e.task) = Machine.earliest w now place tasks := by
  induction tasks generalizing place with
  | nil => rfl
  | cons t tasks ih => rw [map_cons, Machine.earliest, Machine.earliest, readyAt?_task, ih]

lemma next?_machine : (e.machine m).next? = m.next? := @earliest_tasks e 0 m.world m.now m.tasks

lemma machine_setTask : e.machine (m.setTask place t) = (e.machine m).setTask place (e.task t) := by
  cases place with
  | zero => rfl
  | succ p =>
    simp only [Machine.setTask, isOver_task]
    split
    · simp [machine, eraseIdx_map]
    · simp [machine, map_set]

lemma machine_adopt : e.machine m.adopt = (e.machine m).adopt := by
  have hborn : (e.machine m).world.born = m.world.born.map e.task := rfl
  unfold Machine.adopt
  rw [hborn]
  cases m.world.born with
  | nil => rfl
  | cons t born => simp [machine, world]

lemma tasks_machine : (e.machine m).tasks = m.tasks.map e.task := rfl

lemma machine_stepAt : e.machine ((e.machine m).stepAt place time) = e.machine (m.stepAt place time) := by
  have htasks : (e.machine m).tasks[place]? = m.tasks[place]?.map e.task := by rw [tasks_machine, getElem?_map]
  cases ht : m.tasks[place]? with
  | none =>
    rw [ht] at htasks
    simp only [Machine.stepAt, htasks, ht, Option.map_none]
    exact e.machine_machine m
  | some t =>
    rw [ht] at htasks
    have hstep := @state_step e ⟨m.world, { t with clock := time }⟩
    have hshared (m : Machine) (w : World) :
        e.machine { m with world := w, now := time } = { e.machine m with world := e.world w, now := time } := rfl
    have hworld : e.world (State.step ⟨e.world m.world, { e.task t with clock := time }⟩).world =
        e.world (State.step ⟨m.world, { t with clock := time }⟩).world := congrArg State.world hstep
    have htask : e.task (State.step ⟨e.world m.world, { e.task t with clock := time }⟩).tick.task =
        e.task (State.step ⟨m.world, { t with clock := time }⟩).tick.task :=
      congrArg (fun s : State => s.tick.task) hstep
    rw [Machine.stepAt_eq time htasks, Machine.stepAt_eq time ht, machine_adopt, machine_adopt, machine_setTask,
      machine_setTask, hshared, hshared, machine_machine]
    exact congrArg₂ (fun w t => (Machine.setTask { e.machine m with world := w, now := time } place t).adopt) hworld
      htask

lemma stepAt_of_eq (h : e.machine m = e.machine m') :
    e.machine (m.stepAt place time) = e.machine (m'.stepAt place time) := by
  rw [← machine_stepAt, h, machine_stepAt]

lemma next?_of_eq (h : e.machine m = e.machine m') : m.next? = m'.next? := by
  rw [← next?_machine (e := e), h, next?_machine]

lemma isOver_of_eq (h : e.machine m = e.machine m') : m.main.isOver = m'.main.isOver := by
  rw [← @isOver_task e m.main, ← @isOver_task e m'.main]
  exact congrArg (fun m : Machine => m.main.isOver) h

end Erasure

namespace Machine

def completion? (m : Machine) : Option Completion :=
  match m.main.control, m.main.stack with
  | .done c, [] => some c
  | _, _ => none

lemma completion?_finish {m : Machine} {k : Nat} {c : Completion}
    (h : (stepsOf advance k m).bind completion? = some c) :
    m.finish.bind completion? = some c := by
  obtain ⟨m', hm, hc⟩ := Option.bind_eq_some_iff.1 h
  have hover : m'.main.isOver = true := by
    unfold completion? at hc
    split at hc
    · rename_i hcontrol hstack
      simp [Task.isOver, hcontrol, hstack]
    · contradiction
  rw [finish_of_reaches (reaches_of_stepsOf hm), finish_of_isOver hover]
  exact hc

def setOut (m : Machine) (c : Control) : Machine := { m with main := { m.main with control := c, stack := [] } }

/-- The machine after steps of the tasks at some places, each at some time. -/
def under (m : Machine) (steps : List (Nat × Nat)) : Machine := steps.foldl (fun m s => m.stepAt s.1 s.2) m

/-- The machine once its main task has evaluated a node, or waits for ever to do so; nothing if neither happens. -/
def evaluate (m : Machine) (n : Node) (ctx : Context) : Option Machine := (m.setOut (.eval n ctx)).finish

/-- The machine once its main task has made a call, or waits for ever to do so; nothing if neither happens. -/
def invoke (m : Machine) (callee : Value) (args : List Value) (kwargs : Dict Value) (span : Span) (ctx : Context) :
    Option Machine := (m.setOut (.call callee args kwargs span ctx)).finish

end Machine

namespace Erasure

variable {e : Erasure} {m m' : Machine}

/-- Nothing but places tells two machines apart: main tasks that are over have come to the same value, the same signal
or the same fault, and the same was printed. -/
structure Alike (e : Erasure) (m m' : Machine) : Prop where
  completion : m.completion?.map Completion.untraced = m'.completion?.map Completion.untraced
  output : m.world.output = m'.world.output
  machine : e.machine m = e.machine m'

lemma completion?_machine : (e.machine m).completion? = m.completion?.map Completion.untraced := by
  obtain ⟨w, ⟨control, stack, depth, deadline, thread, clock⟩, others, now⟩ := m
  cases control <;> cases stack <;> rfl

lemma Alike.of_eq (h : e.machine m = e.machine m') : e.Alike m m' where
  completion := by rw [← completion?_machine (e := e), h, completion?_machine]
  output := by
    have hkept (m : Machine) : m.world.output = (e.machine m).world.output := rfl
    rw [hkept m, h, hkept m']
  machine := h

lemma exists_finish {n : Machine} (h : m.finish = some n) (hm : e.machine m = e.machine m') :
    ∃ n', m'.finish = some n' ∧ e.machine n = e.machine n' := by
  refine Machine.finish.partial_correctness
    (fun m n => ∀ m', e.machine m = e.machine m' → ∃ n', m'.finish = some n' ∧ e.machine n = e.machine n')
    (fun finish ih m n h m' hm => ?_) m n h m' hm
  -- Both machines stop or go on together, at the same place and time.
  have hover := isOver_of_eq hm
  have hnext := next?_of_eq hm
  rw [Machine.finish, ← hover, ← hnext]
  split at h
  · rename_i ho
    rw [if_pos ho]
    exact ⟨m', rfl, (congrArg e.machine (Option.some.inj h)).symm.trans hm⟩
  · rename_i ho
    rw [if_neg ho]
    cases hn : m.next? with
    | none =>
      rw [hn] at h
      exact ⟨m', rfl, (congrArg e.machine (Option.some.inj h)).symm.trans hm⟩
    | some p =>
      rw [hn] at h
      exact ih _ _ h _ (stepAt_of_eq hm)

lemma rel_finish (h : e.machine m = e.machine m') : Option.Rel e.Alike m.finish m'.finish := by
  cases hf : m.finish with
  | some n =>
    obtain ⟨n', hf', hn⟩ := exists_finish hf h
    rw [hf']
    exact .some (.of_eq hn)
  | none => cases hf' : m'.finish with
    | none => exact .none
    | some n' =>
      obtain ⟨n, hfn, -⟩ := exists_finish hf' h.symm
      rw [hf] at hfn
      contradiction

lemma alike_under (h : e.machine m = e.machine m') (steps : List (Nat × Nat)) : e.Alike (m.under steps)
    (m'.under steps) := by
  induction steps generalizing m m' with
  | nil => exact .of_eq h
  | cons s steps ih => exact ih (stepAt_of_eq h)

lemma machine_setOut {c c' : Control} (h : e.machine m = e.machine m') (hc : e.control c = e.control c') :
    e.machine (m.setOut c) = e.machine (m'.setOut c') := by
  have hsetOut (m : Machine) (c : Control) : e.machine (m.setOut c) = (e.machine m).setOut (e.control c) := rfl
  rw [hsetOut, hsetOut, h, hc]

def traces : Erasure := ⟨Context.untraced, Context.untraced_untraced, Context.untraced_untraced⟩

def places : Erasure := ⟨fun _ => .nowhere, fun _ => rfl, fun _ => rfl⟩

end Erasure

/-- Code does the same whatever is there for tracebacks, and a function does the same whoever calls it: at the end, and
after any steps of the tasks, in whatever order. -/
theorem outcome_without_traces (e : Erasure) {m m' : Machine} (h : e.machine m = e.machine m') :
    (∀ {n n' : Node} {ctx ctx' : Context}, n.unplaced = n'.unplaced → ctx.untraced = ctx'.untraced →
      Option.Rel e.Alike (m.evaluate n ctx) (m'.evaluate n' ctx') ∧
        ∀ steps, e.Alike ((m.setOut (.eval n ctx)).under steps) ((m'.setOut (.eval n' ctx')).under steps)) ∧
    ∀ {f f' : Value} {args args' : List Value} {kwargs kwargs' : Dict Value} (span span' : Span) {ctx ctx' : Context},
      f.untraced = f'.untraced → untracedValues args = untracedValues args' →
      untracedDict kwargs = untracedDict kwargs' →
      (∃ id closure, f = .function id closure) ∨ e.place ctx = e.place ctx' →
      Option.Rel e.Alike (m.invoke f args kwargs span ctx) (m'.invoke f' args' kwargs' span' ctx') ∧
        ∀ steps, e.Alike ((m.setOut (.call f args kwargs span ctx)).under steps)
          ((m'.setOut (.call f' args' kwargs' span' ctx')).under steps) := by
  have hsame {c c' : Control} (hc : e.control c = e.control c') :
      Option.Rel e.Alike (m.setOut c).finish (m'.setOut c').finish ∧
        ∀ steps, e.Alike ((m.setOut c).under steps) ((m'.setOut c').under steps) :=
    ⟨Erasure.rel_finish (Erasure.machine_setOut h hc), Erasure.alike_under (Erasure.machine_setOut h hc)⟩
  refine ⟨fun hn hc => hsame (by simp only [Erasure.control, hn, hc]),
    fun {f f'} _ _ _ _ _ _ ctx ctx' hf ha hk hp => ?_⟩
  have hplace : e.callPlace f ctx = e.callPlace f' ctx' := by
    calc e.callPlace f ctx = e.callPlace f ctx' := by
          rcases hp with ⟨id, closure, rfl⟩ | hp
          · rfl
          · exact Erasure.callPlace_of_place hp f
      _ = e.callPlace f' ctx' := by rw [← Erasure.callPlace_untraced, hf, Erasure.callPlace_untraced]
  exact hsame (by simp only [Erasure.control, hf, ha, hk, hplace])

namespace Shadowing

def top : Context := ⟨"<program>", ⟨"main", ""⟩, [], [0], [2], 0⟩

def nested : Context := ⟨"g", ⟨"main", ""⟩, [⟨⟨"main", ""⟩, ⟨30, 33⟩, "<program>"⟩], [1, 0], [3, 2], 1⟩

def function (offset : Nat) : Value := .function 0 ⟨"f", ⟨[], .ident "x" ⟨offset, offset + 1⟩, true, false⟩, top⟩

def machine (offset : Nat) : Machine where
  world := {
    settings := ⟨⟨"lib"⟩, 8⟩
    globals := 0
    tables := ⟨#[[("f", function offset), ("x", .int 1)], [("x", .int 2)], [], []], #[[], []]⟩
    files := ⟨[], [], []⟩
    input := [] }
  main := ⟨.done (.value .nil), [], 0, none, none, 0⟩
  others := []
  now := 0

theorem outcome_from_two_callers :
    ((machine 0).invoke (function 0) [] [] ⟨20, 23⟩ top).bind Machine.completion? = some (.value (.int 1)) ∧
      Option.Rel Erasure.traces.Alike ((machine 0).invoke (function 0) [] [] ⟨20, 23⟩ top)
        ((machine 40).invoke (function 40) [] [] ⟨60, 63⟩ nested) ∧
      Option.Rel Erasure.places.Alike ((machine 0).invoke (.builtin .catch_) [function 0] [] ⟨20, 23⟩ top)
        ((machine 40).invoke (.builtin .catch_) [function 40] [] ⟨60, 63⟩ nested) ∧
      Option.Rel Erasure.traces.Alike ((machine 0).evaluate (.ident "x" ⟨20, 21⟩) nested)
        ((machine 40).evaluate (.ident "x" ⟨60, 61⟩) { nested with name := "h", callers := [] }) := by
  have hsame (e : Erasure) : e.machine (machine 0) = e.machine (machine 40) := by
    simp [machine, Erasure.machine, Erasure.world, Tables.untraced, Heap.untraced, function, Dict.onValues,
      Value.untraced, Closure.untraced, Routine.untraced, Node.unplaced]
  refine ⟨?_, ?_, ?_, ?_⟩
  · exact Machine.completion?_finish (k := 3) rfl
  · exact And.left ((outcome_without_traces .traces (hsame _)).2 _ _ rfl rfl rfl (.inl ⟨_, _, rfl⟩))
  · exact And.left ((outcome_without_traces .places (hsame _)).2 _ _ rfl rfl rfl (.inr rfl))
  · exact And.left ((outcome_without_traces .traces (hsame _)).1 rfl rfl)

end Shadowing

end ScriptMachine
