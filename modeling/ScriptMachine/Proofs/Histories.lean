import ScriptMachine.Proofs.Runs

/-! Histories of a machine: its tasks take steps in any order and at any times, and programs are started one after the
other. -/

namespace ScriptMachine

open List

/-- What can happen next to a machine: a step of the task at some place, or the start of another program. -/
inductive Move where
  | step (place time : Nat)
  | launch (source : Source) (program : Module)

/-- The programs that are started have been read from texts. -/
def FromTexts (moves : List Move) : Prop :=
  ∀ source program, .launch source program ∈ moves → ∃ name text, Session.parse name text = .ok (source, program)

namespace Machine

variable {moves : List Move} {P : Policy} {place time : Nat}

def move (m : Machine) : Move → Machine
  | .step place time => m.stepAt place time
  | .launch source program => (Session.ofMachine m).launch source program

def after (m : Machine) (moves : List Move) : Machine := moves.foldl move m

def boot (settings : Settings) (argv : List String) (files : FileTree) (input : List UInt8) : Machine :=
  ⟨(Session.start settings argv files input).world, { control := .done (.value .nil), stack := [], clock := 0 }, [], 0⟩

def mover? (m : Machine) : Move → Option State
  | .step place time => m.tasks[place]?.map fun t => ⟨m.world, { t with clock := time }⟩
  | .launch _ _ => none

def movers (m : Machine) : List Move → List State
  | [] => []
  | move :: moves => (m.mover? move).toList ++ (m.move move).movers moves

variable {m m' : Machine} {move : Move} {s : State}

lemma after_append {moves' : List Move} : m.after (moves ++ moves') = (m.after moves).after moves' :=
  foldl_append

lemma after_concat : m.after (moves ++ [move]) = (m.after moves).move move := after_append

lemma mem_movers_concat :
    s ∈ m.movers (moves ++ [move]) ↔ s ∈ m.movers moves ∨ (m.after moves).mover? move = some s := by
  induction moves generalizing m with
  | nil => simp [movers, after]
  | cons move' moves ih =>
    simp only [cons_append, movers, mem_append, ih, or_assoc]
    rfl

theorem after_induction {I : Machine → Prop} (hm : I m) (hI : ∀ m move, I m → I (m.move move)) (moves : List Move) :
    I (m.after moves) := by
  induction moves generalizing m with
  | nil => exact hm
  | cons move moves ih => exact ih (hI m move hm)

lemma tasks_stepAt_eq {t : Task} (ht : m.tasks[place]? = some t) (hs : s = ⟨m.world, { t with clock := time }⟩) :
    (m.stepAt place time).tasks = (if place ≠ 0 ∧ s.step.task.isOver then m.tasks.eraseIdx place
      else m.tasks.set place s.step.tick.task) ++ s.step.world.born := by
  rw [stepAt_eq time ht, tasks_adopt, world_setTask, tasks_setTask, hs]
  rfl

lemma tasks_stepAt {t : Task} (ht : m.tasks[place]? = some t) (hs : s = ⟨m.world, { t with clock := time }⟩) :
    ∃ left, (m.stepAt place time).tasks = m.tasks.take place ++ left ++ m.tasks.drop (place + 1) ++ s.step.world.born ∧
      (left = [s.step.tick.task] ∨ left = [] ∧ s.step.task.isOver = true) := by
  have htasks := tasks_stepAt_eq ht hs
  split at htasks
  · rename_i hover
    refine ⟨[], ?_, .inr ⟨rfl, hover.2⟩⟩
    rw [htasks, eraseIdx_eq_take_drop_succ, append_nil]
  · refine ⟨[s.step.tick.task], ?_, .inl rfl⟩
    have hplace : place < m.tasks.length := (List.getElem?_eq_some_iff.1 ht).1
    rw [htasks, set_eq_take_append_cons_drop, if_pos hplace]
    simp only [append_assoc, cons_append, nil_append]

lemma tasks_of_mover (h : m.mover? move = some s) : ∃ before t after left, m.tasks = before ++ t :: after ∧
    s.task.control = t.control ∧ s.task.stack = t.stack ∧
      (m.move move).tasks = before ++ left ++ after ++ s.step.world.born ∧
        (left = [s.step.tick.task] ∨ left = [] ∧ s.step.task.isOver = true) := by
  cases move with
  | launch source program => contradiction
  | step place time =>
    obtain ⟨t, ht, hs⟩ := Option.map_eq_some_iff.1 h
    obtain ⟨left, htasks, hleft⟩ := tasks_stepAt ht hs.symm
    obtain ⟨hplace, heq⟩ := List.getElem?_eq_some_iff.1 ht
    have hsplit : m.tasks = m.tasks.take place ++ t :: m.tasks.drop (place + 1) := by
      rw [← heq, cons_getElem_drop_succ, take_append_drop]
    exact ⟨_, t, _, left, hsplit, hs ▸ rfl, hs ▸ rfl, htasks, hleft⟩

lemma world_mover (h : m.mover? move = some s) : s.world = m.world := by
  cases move with
  | launch source program => contradiction
  | step place time =>
    obtain ⟨t, -, rfl⟩ := Option.map_eq_some_iff.1 h
    rfl

lemma world_of_mover (h : m.mover? move = some s) : (m.move move).world = { s.step.world with born := [] } := by
  cases move with
  | launch source program => contradiction
  | step place time =>
    obtain ⟨t, ht, rfl⟩ := Option.map_eq_some_iff.1 h
    change (m.stepAt place time).world = _
    rw [stepAt_eq time ht, world_adopt, world_setTask]

lemma agrees_of_launch (source : Source) (program : Module) :
    (m.move (.launch source program)).world.Agrees m.world := by
  change ((Session.ofMachine m).launch source program).world.Agrees m.world
  unfold Session.launch
  cases program.statements with
  | nil | cons => exact ⟨rfl, rfl, rfl, rfl, rfl, rfl, rfl⟩

lemma tasks_launch (source : Source) (program : Module) : ∃ t, (m.move (.launch source program)).tasks = t :: m.others ∧
    (t.stack = [] ∧ (∃ v, t.control = .done (.value v)) ∨ ∃ statement rest ctx,
      t.stack = [.moduleStatement statement rest ctx] ∧ t.control = .eval statement ctx) := by
  refine ⟨_, rfl, ?_⟩
  simp only [Machine.move, Session.launch]
  cases program.statements with
  | nil => exact .inl ⟨rfl, .nil, rfl⟩
  | cons statement rest => exact .inr ⟨statement, rest, _, rfl, rfl⟩

lemma move_of_no_mover (h : m.mover? move = none) : m.move move = m ∨ ∃ source program,
    move = .launch source program := by
  cases move with
  | launch source program => exact .inr ⟨source, program, rfl⟩
  | step place time =>
    left
    have hnone : m.tasks[place]? = none := Option.map_eq_none_iff.1 h
    simp only [Machine.move, stepAt, hnone]

lemma Reaches.exists_after (h : m.Reaches m') : ∃ moves, FromTexts moves ∧ m.after moves = m' := by
  induction h with
  | refl => exact ⟨[], fun _ _ h => absurd h not_mem_nil, rfl⟩
  | tail _ hs ih =>
    obtain ⟨moves, hparsed, rfl⟩ := ih
    obtain ⟨⟨time, place⟩, -, rfl⟩ := Option.map_eq_some_iff.1 hs.2
    exact ⟨moves ++ [.step place time], fun source program h => hparsed source program (by simpa using h), after_concat⟩

lemma Holds.move_of (L : P.Lawful) (h : m.Holds P.shared (P.task [])) (hs : ∀ s, m.mover? move = some s → P.sees s)
    (hl : ∀ source program, move = .launch source program →
      P.tables ((Session.ofMachine m).entry source).2.world.tables ∧
      P.units program.statements ((Session.ofMachine m).entry source).1) :
    (m.move move).Holds P.shared (P.task []) := by
  cases move with
  | launch source program =>
    obtain ⟨htables, hunits⟩ := hl source program rfl
    exact Policy.holds_launch L ⟨h.1, fun t ht => h.2 t (.tail _ ht)⟩ htables hunits
  | step place time =>
    refine h.stepAt_of Policy.steady place time fun t ht => ?_
    exact L.step (hs _ (Option.map_eq_some_iff.2 ⟨t, ht, rfl⟩)) h.1 (h.2 t (mem_of_getElem? ht))

theorem Holds.after_of (L : P.Lawful) (h : m.Holds P.shared (P.task [])) (hs : ∀ s ∈ m.movers moves, P.sees s)
    (hl : ∀ (m : Machine) (source : Source) (program : Module), .launch source program ∈ moves →
      P.tables m.world.tables → P.tables ((Session.ofMachine m).entry source).2.world.tables ∧
      P.units program.statements ((Session.ofMachine m).entry source).1) :
    (m.after moves).Holds P.shared (P.task []) := by
  induction moves generalizing m with
  | nil => exact h
  | cons move moves ih =>
    rw [movers] at hs
    refine ih (h.move_of L (fun s hmover => hs s ?_) fun source program heq => ?_) (fun s hmem => hs s ?_)
      fun m source program hmem => hl m source program (.tail _ hmem)
    · exact mem_append_left _ (Option.mem_toList.2 hmover)
    · exact hl m source program (heq ▸ mem_cons_self ..) h.1.2
    · exact mem_append_right _ hmem

lemma holds_boot {settings : Settings} {argv : List String} {files : FileTree} {input : List UInt8}
    (ht : P.tables (Session.start settings argv files input).world.tables) :
    (boot settings argv files input).Holds P.shared (P.task []) := by
  refine ⟨⟨covers_start, ht⟩, fun t ht => ?_⟩
  obtain rfl := mem_singleton.1 ht
  exact ⟨⟨[], rfl, forall_mem_nil _⟩, trivial⟩

end Machine

section sessions

variable {settings : Settings} {argv : List String} {files : FileTree} {input : List UInt8} {s : Session}
  {name text : String} {source : Source} {program : Module} {m : Machine} {moves steps : List Move}

lemma FromTexts.launch (hm : FromTexts moves) (hp : Session.parse name text = .ok (source, program))
    (hs : FromTexts steps) : FromTexts (moves ++ .launch source program :: steps) := by
  intro source' program' h
  rcases mem_append.1 h with h | h
  · exact hm _ _ h
  · rcases mem_cons.1 h with heq | h
    · cases heq
      exact ⟨name, text, hp⟩
    · exact hs _ _ h

lemma Session.After.exists_after (hs : (Session.start settings argv files input).After s) :
    ∃ moves, FromTexts moves ∧ Session.ofMachine ((Machine.boot settings argv files input).after moves) = s := by
  induction hs with
  | refl => exact ⟨[], fun _ _ h => absurd h not_mem_nil, rfl⟩
  | run name text _ ih =>
    obtain ⟨moves, hparsed, hmoves⟩ := ih
    unfold Session.run
    split
    · exact ⟨moves, hparsed, hmoves⟩
    · rename_i source program hparse
      split
      · rename_i m' hfinish
        obtain ⟨steps, hsteps, rfl⟩ := (Machine.reaches_of_finish hfinish).exists_after
        refine ⟨moves ++ .launch source program :: steps, hparsed.launch hparse hsteps, ?_⟩
        rw [Machine.after_append, ← hmoves]
        rfl
      · exact ⟨moves, hparsed, hmoves⟩

theorem Machine.Reaches.exists_history (hs : (Session.start settings argv files input).After s)
    (hp : Session.parse name text = .ok (source, program)) (hm : (s.launch source program).Reaches m) :
    ∃ moves, FromTexts moves ∧ (Machine.boot settings argv files input).after moves = m := by
  obtain ⟨moves, hparsed, rfl⟩ := hs.exists_after
  obtain ⟨steps, hsteps, rfl⟩ := hm.exists_after
  exact ⟨moves ++ .launch source program :: steps, hparsed.launch hp hsteps, Machine.after_append⟩

end sessions

end ScriptMachine
