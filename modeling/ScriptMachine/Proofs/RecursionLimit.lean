import ScriptMachine.Proofs.Bookkeeping
import ScriptMachine.Proofs.Histories

/-! The limit on recursion. The depth of a task is the number of functions and modules that it is running, and it never
goes above the limit. -/

namespace ScriptMachine

open List

def Frame.isBinding : Frame → Bool
  | .default .. => true
  | _ => false

def Frame.isActivation : Frame → Bool
  | .functionBody _ _ | .default .. => true
  | _ => false

namespace Task

def activations (t : Task) : Nat := t.stack.countP Frame.isActivation

def running (t : Task) : Nat := t.stack.countP Frame.isCounted

def binding (t : Task) : Nat := t.stack.countP Frame.isBinding

lemma activations_le (t : Task) : t.activations ≤ t.running + t.binding := by
  unfold activations running binding
  induction t.stack with
  | nil => exact le_rfl
  | cons f stack ih =>
    simp only [countP_cons]
    cases f <;> simp only [Frame.isActivation, Frame.isCounted, Frame.isBinding, if_true, if_false,
      Bool.false_eq_true] <;> omega

structure Counted (limit : Nat) (t : Task) : Prop where
  depth : t.depth = t.running
  le : t.depth ≤ limit

lemma IsFresh.counted {t : Task} (h : t.IsFresh) (limit : Nat) : t.Counted limit := by
  have hrunning : t.running = 0 := by
    refine countP_eq_zero.2 fun f hf hcounted => ?_
    have hplain := h.stack f hf
    cases f <;> simp_all [Frame.isCounted, Frame.isPlain]
  exact ⟨h.depth.trans hrunning.symm, h.depth ▸ Nat.zero_le _⟩

end Task

structure World.Counted (limit : Nat) (w : World) : Prop where
  maxDepth : w.settings.maxDepth = limit
  born : ∀ t ∈ w.born, t.Counted limit

structure State.Counted (limit : Nat) (s : State) : Prop where
  world : s.world.Counted limit
  task : s.task.Counted limit

namespace State.Counted

variable {limit : Nat} {s s' : State} {f : Frame} {rest : List Frame} {c : Completion}

variable (h : s.Counted limit)
include h

lemma deepens (hs : s.Deepens s') : s'.Counted limit := by
  induction hs with
  | refl => exact h
  | work c _ ih => exact ⟨ih.world, ih.task.depth, ih.task.le⟩
  | share _ hsettings hborn ih => exact ⟨⟨hsettings ▸ ih.world.maxDepth, hborn ▸ ih.world.born⟩, ih.task⟩
  | spawn _ ht ih =>
    refine ⟨⟨ih.world.maxDepth, fun t' ht' => ?_⟩, ih.task⟩
    rcases mem_append.1 ht' with ht' | ht'
    · exact ih.world.born t' ht'
    · exact mem_singleton.1 ht' ▸ ht.counted limit
  | @push s' f _ hf ih =>
    have hcounted : f.isCounted = false := by cases f <;> simp_all [Frame.isCounted, Frame.isPlain]
    refine ⟨ih.world, ?_, ih.task.le⟩
    simpa [Task.running, State.push, hcounted] using ih.task.depth
  | @enter s' f _ hf hdepth ih =>
    refine ⟨ih.world, ?_, ?_⟩
    · simpa [Task.running, hf] using ih.task.depth
    · exact ih.world.maxDepth ▸ hdepth

lemma withDeadline (nanos : Nat) : (s.withDeadline nanos).Counted limit := by
  refine ⟨h.world, ?_, h.task.le⟩
  simpa [Task.running, State.withDeadline, State.push, Frame.isCounted] using h.task.depth

lemma unwind (hs : s.task.stack = f :: rest) :
    (State.unwind { s with task := { s.task with stack := rest } } f c).Counted limit := by
  have hdepth := h.task.depth
  have hle := h.task.le
  simp only [Task.running, hs, countP_cons] at hdepth
  cases f with
  | functionBody | leaveModule =>
    refine ⟨h.world, ?_, ?_⟩
    · simp only [State.unwind, Task.running, Frame.isCounted, if_true] at hdepth ⊢
      omega
    · exact (Nat.sub_le _ _).trans hle
  | threadEnd | jobEnd =>
    have hpopped : State.Counted limit { s with task := { s.task with stack := rest } } := ⟨h.world, hdepth, hle⟩
    unfold State.unwind
    dsimp only
    split
    · exact hpopped.deepens State.Deepens.refl.setOutcome
    · exact hpopped
  | _ => exact ⟨⟨h.world.maxDepth, h.world.born⟩, hdepth, hle⟩

lemma nextJob (pool : Nat) : (s.nextJob pool).Counted limit := by
  unfold State.nextJob
  split
  · rename_i p _
    split
    · rename_i job jobs _
      have hset : (s.setPool pool { p with queue := jobs }).Counted limit := h.deepens State.Deepens.refl.setPool
      have hfresh : ((s.setPool pool { p with queue := jobs }).jobTask pool job).IsFresh := State.callTask_isFresh rfl
      have hcounted := hfresh.counted limit
      exact ⟨hset.world, hcounted.depth, hcounted.le⟩
    · exact h.deepens (.value (.setPool .refl))
  · exact h.deepens (.value .refl)

lemma unwound : s.unwound.Counted limit := by
  cases hcontrol : s.task.control with
  | eval | call | wait =>
    rw [State.unwound_of_not_done (by simp [hcontrol])]
    exact h
  | done c =>
    cases hstack : s.task.stack with
    | nil => simpa only [State.unwound, hcontrol, hstack] using h
    | cons f rest =>
      rw [State.unwound_of_done hcontrol hstack]
      exact h.unwind hstack

theorem step : s.step.Counted limit := by
  rcases s.step_cases with ⟨-, hdeepens⟩ | ⟨nanos, -, hdeepens⟩ | ⟨c, future, pool, rest, -, -, hjob⟩
  · exact h.unwound.deepens hdeepens
  · exact (h.withDeadline nanos).deepens hdeepens
  · rw [hjob]
    exact h.unwound.nextJob pool

end State.Counted

lemma upheld_counted (limit : Nat) : Machine.Upheld (World.Counted limit) (Task.Counted limit) where
  step {w t} hw ht := by
    have hstate : State.Counted limit ⟨w, t⟩ := ⟨hw, ht⟩
    exact ⟨hstate.step.world, hstate.step.task⟩
  born hw := hw.born
  adopt hw := ⟨hw.maxDepth, forall_mem_nil _⟩
  clock _ ht := ⟨ht.depth, ht.le⟩

lemma Session.Holds.launch_counted {limit : Nat} {s : Session} (h : s.Holds (World.Counted limit) (Task.Counted limit))
    (source : Source) (m : Module) : (s.launch source m).Holds (World.Counted limit) (Task.Counted limit) := by
  have hstart : State.Counted limit ⟨s.world, { control := .done (.value .nil), stack := [], clock := s.now }⟩ :=
    ⟨h.1, rfl, Nat.zero_le _⟩
  have hopened : State.Counted limit (s.entry source).2 := hstart.deepens State.Deepens.refl.onTables
  have hlaunched : State.Counted limit ((s.entry source).2.runStatements (s.entry source).1 .nil m.statements) :=
    hopened.deepens State.Deepens.refl.runStatements
  exact ⟨hlaunched.world, forall_mem_cons.2 ⟨hlaunched.task, h.2⟩⟩

lemma Machine.counted_after {settings : Settings} {argv : List String} {files : FileTree} {input : List UInt8}
    (moves : List Move) : ((Machine.boot settings argv files input).after moves).Holds (World.Counted settings.maxDepth)
      (Task.Counted settings.maxDepth) := by
  have hboot : (Machine.boot settings argv files input).Holds (World.Counted settings.maxDepth)
      (Task.Counted settings.maxDepth) :=
    ⟨⟨rfl, forall_mem_nil _⟩, forall_mem_singleton.2 ⟨rfl, Nat.zero_le _⟩⟩
  refine Machine.after_induction hboot (fun m move h => ?_) moves
  cases move with
  | step place time => exact h.stepAt (upheld_counted _) place time
  | launch source program =>
    exact Session.Holds.launch_counted ⟨h.1, fun t ht => h.2 t (.tail _ ht)⟩ source program

/-- At every moment of every run, in whatever order the tasks take their steps, the functions and modules that a task is
running are as many as its depth says and no more than the limit; so the calls it has entered are above the limit by no
more than those that wait for a default. One function more at the limit is an error. -/
theorem activations_le_maxDepth_add_binding {settings : Settings} {argv : List String} {files : FileTree}
    {input : List UInt8} {moves : List Move} {m : Machine} {t : Task}
    (hm : (Machine.boot settings argv files input).after moves = m) (ht : t ∈ m.tasks) :
    t.depth = t.running ∧ t.running ≤ settings.maxDepth ∧ t.activations ≤ settings.maxDepth + t.binding ∧
      (t.running = settings.maxDepth → ∀ closure inner, ∃ f : Failure,
        (State.enterBody ⟨m.world, t⟩ closure inner).task.control = .done (.error f) ∧
          f.fault.message = "Maximum recursion depth exceeded (" ++ toString settings.maxDepth ++ ")") := by
  obtain ⟨hworld, htasks⟩ : m.Holds (World.Counted settings.maxDepth) (Task.Counted settings.maxDepth) :=
    hm ▸ Machine.counted_after moves
  obtain ⟨hdepth, hle⟩ := htasks t ht
  have hactivations := t.activations_le
  refine ⟨hdepth, hdepth ▸ hle, by omega, fun hlimit closure inner => ?_⟩
  have hdeep : m.world.settings.maxDepth ≤ t.depth := by
    rw [hworld.maxDepth, hdepth, hlimit]
  refine ⟨(Fault.tooDeep m.world.settings.maxDepth).at_ closure.routine.body.span inner, ?_, ?_⟩
  · simp only [State.enterBody, if_pos hdeep]
    rfl
  · rw [hworld.maxDepth]
    rfl

def nestedDefaults : Module :=
  .ofTexts ["defun a() -> 1", "defun b(let x = a()) -> x", "defun c(let x = b()) -> x", "c()"]

lemma nestedDefaults_reaches :
    ∃ m, (Machine.ofProgram 1 nestedDefaults).Reaches m ∧ m.main.activations = 3 ∧ m.main.binding = 2 := by
  have hsteps : (stepsOf Machine.advance 18 (Machine.ofProgram 1 nestedDefaults)).any
      (fun m => m.main.activations = 3 ∧ m.main.binding = 2) = true := by
    decide +kernel
  obtain ⟨m, hm, hcounts⟩ := (Option.any_eq_true _ _).1 hsteps
  exact ⟨m, Machine.reaches_of_stepsOf hm, of_decide_eq_true hcounts⟩

theorem activations_le_one_add_two :
    ∃ m, (Machine.ofProgram 1 nestedDefaults).Reaches m ∧ m.main.activations = 3 ∧ m.main.binding = 2 ∧
      m.main.running ≤ 1 ∧ m.main.activations ≤ 1 + m.main.binding := by
  obtain ⟨m, hm, hactivations, hbinding⟩ := nestedDefaults_reaches
  obtain ⟨steps, -, hsteps⟩ := hm.exists_after
  have hafter : (Machine.boot ⟨⟨""⟩, 1⟩ [] ⟨[], [], []⟩ []).after (.launch ⟨"", ""⟩ nestedDefaults :: steps) = m :=
    hsteps
  obtain ⟨-, hrunning, hle, -⟩ := activations_le_maxDepth_add_binding hafter (mem_cons_self ..)
  exact ⟨m, hm, hactivations, hbinding, hrunning, hle⟩

/-- Under a limit of one, three calls have been entered and not left: two of them wait for a default. -/
theorem activations_above_maxDepth :
    ∃ m, (Machine.ofProgram 1 nestedDefaults).Reaches m ∧ 1 + 1 < m.main.activations := by
  obtain ⟨m, hm, hactivations, -⟩ := nestedDefaults_reaches
  exact ⟨m, hm, by omega⟩

end ScriptMachine
