import ScriptMachine.Proofs.Histories
import ScriptMachine.Proofs.PlainPrograms

/-! Calls leave the bindings alone that were there before them. -/

namespace ScriptMachine

open List

variable {beside : Bool} {places : List Nat}

def Task.isCalling (t : Task) : Bool :=
  match t.control with
  | .call (.function _ _) _ _ _ _ => true
  | _ => false

/-- A worker of a pool that is done with a job. -/
def Task.isBetweenJobs (t : Task) : Bool :=
  match t.control, t.stack with
  | .done _, [.jobEnd _ _] => true
  | _, _ => false

inductive Kin where
  | caller
  | bystander
  | offspring
deriving DecidableEq

/-- A job that a worker takes during a call is as new as a thread that is started then. -/
def Kin.moving (t : Task) (κ : Kin) : Kin := if κ = bystander ∧ t.isBetweenJobs then offspring else κ

structure Watch where
  machine : Machine
  kin : List Kin

namespace Watch

def start (m : Machine) (place : Nat) : Watch := ⟨m, (m.tasks.map fun _ => Kin.bystander).set place .caller⟩

def mover? (x : Watch) (place : Nat) : Option Kin :=
  x.machine.tasks[place]?.bind fun t => x.kin[place]?.map (·.moving t)

def stepAt (x : Watch) (place time : Nat) : Watch :=
  match x.machine.tasks[place]?, x.mover? place with
  | some t, some κ =>
    let s := State.step ⟨x.machine.world, { t with clock := time }⟩
    let kept := if place ≠ 0 ∧ s.task.isOver then x.kin.eraseIdx place else x.kin.set place κ
    ⟨x.machine.stepAt place time, kept ++ s.world.born.map fun _ => Kin.offspring⟩
  | _, _ => x

def isOver (depth : Nat) (x : Watch) : Bool :=
  (x.machine.tasks.zip x.kin).any fun (t, κ) => κ = .caller ∧ t.hasReturned depth

/-- A step of the task at some place, at any time before the end of the call. -/
def Steps (depth : Nat) (x : Watch) (place : Nat) (x' : Watch) : Prop :=
  x.isOver depth = false ∧ ∃ time, x' = x.stepAt place time

/-- A step before the end of the call; a bystander that makes it leaves the tables below a number as they are, except
for some names. -/
def Proceeds (names : List String) (n depth : Nat) (x x' : Watch) : Prop :=
  ∃ place, x.Steps depth place x' ∧
    (x.mover? place = some .bystander → x.machine.world.tables.Keeps names n x'.machine.world.tables)

end Watch

section lists

variable {α β : Type} {r : α → β → Prop} {xs : List α} {ys : List β} {i : Nat}

lemma forall₂_getElem? (h : Forall₂ r xs ys) {a : α} (ha : xs[i]? = some a) : ∃ b, ys[i]? = some b ∧ r a b := by
  induction h generalizing i with
  | nil => contradiction
  | @cons x y xs ys hr _ ih =>
    cases i with
    | zero => exact ⟨y, rfl, Option.some.inj ha ▸ hr⟩
    | succ i => exact ih ha

lemma forall₂_set (h : Forall₂ r xs ys) {a : α} {b : β} (hr : r a b) : Forall₂ r (xs.set i a) (ys.set i b) := by
  induction h generalizing i with
  | nil => exact .nil
  | @cons x y xs ys hxy hrest ih =>
    cases i with
    | zero => exact .cons hr hrest
    | succ i => exact .cons hxy ih

lemma forall₂_eraseIdx (h : Forall₂ r xs ys) : Forall₂ r (xs.eraseIdx i) (ys.eraseIdx i) := by
  induction h generalizing i with
  | nil => exact .nil
  | @cons x y xs ys hxy hrest ih =>
    cases i with
    | zero => exact hrest
    | succ i => exact .cons hxy ih

end lists

section invariant

variable {t : Task} {κ : Kin} {place : Nat} {names : List String} {n : Nat} {t₀ : Tables} {base : List Frame}

def Kin.level (n : Nat) : Kin → Nat
  | caller | offspring => n
  | bystander => 0

def Kin.below (base : List Frame) : Kin → List Frame
  | caller => base
  | bystander | offspring => []

structure Watch.Sound (names : List String) (n : Nat) (t₀ : Tables) (base : List Frame) (x : Watch) : Prop where
  world : (plainContents names).Covers x.machine.world
  tables : (isolation names n n t₀).tables x.machine.world.tables
  tasks : Forall₂ (fun t κ => (plainRules names (κ.level n)).task (κ.below base) t) x.machine.tasks x.kin

lemma Kin.level_le : κ.level n ≤ n := by
  cases κ with
  | bystander => exact Nat.zero_le n
  | caller | offspring => exact Nat.le_refl n

lemma Kin.eq_caller_of_moving (h : κ.moving t = caller) : κ = caller := by
  unfold moving at h
  split at h
  · contradiction
  · exact h

lemma Kin.task_moving (ht : (plainRules names (κ.level n)).task (κ.below base) t) :
    (plainRules names ((κ.moving t).level n)).task ((κ.moving t).below base) t := by
  unfold moving
  split
  · rename_i hjobs
    obtain ⟨rfl, hjobs⟩ := hjobs
    unfold Task.isBetweenJobs at hjobs
    split at hjobs
    · rename_i c future pool hc hs
      have hcontrol := ht.2
      rw [hc] at hcontrol
      refine ⟨⟨[.jobEnd future pool], hs, forall_mem_singleton.2 (.inr ⟨rfl, future, pool, rfl⟩)⟩, ?_⟩
      rw [hc]
      exact hcontrol
    · contradiction
  · exact ht

lemma Watch.not_hasReturned {x : Watch} {depth : Nat} (hl : x.isOver depth = false)
    (ht : x.machine.tasks[place]? = some t) (hκ : x.kin[place]? = some .caller) : t.hasReturned depth = false := by
  have hmem : (t, Kin.caller) ∈ x.machine.tasks.zip x.kin := by
    apply mem_of_getElem? (i := place)
    rw [getElem?_zip_eq_some]
    exact ⟨ht, hκ⟩
  simpa using (any_eq_false.1 hl) _ hmem

namespace Watch.Sound

variable {x : Watch} (h : x.Sound names n t₀ base)
include h

lemma ready {κ : Kin} {t : Task} (time : Nat) (ht : (plainRules names (κ.level n)).task (κ.below base) t)
    (hl : κ = .caller → base = [] ∨ t.hasReturned base.length = false) :
    (isolation names (κ.level n) n t₀).Ready (κ.below base)
      (State.step ⟨x.machine.world, { t with clock := time }⟩) := by
  obtain ⟨hsize, hescapes, hkept⟩ := h.tables
  have htables : (isolation names (κ.level n) n t₀).tables x.machine.world.tables :=
    ⟨hsize, hescapes, fun id hid => hkept id (Nat.lt_of_lt_of_le hid Kin.level_le)⟩
  have hready : (isolation names (κ.level n) n t₀).Ready (κ.below base) ⟨x.machine.world, { t with clock := time }⟩ :=
    ⟨⟨h.world, htables, ht.1⟩, ht.2⟩
  apply hready.step (isolation_lawful Kin.level_le) trivial
  cases κ with
  | caller => exact hl rfl
  | bystander | offspring => exact .inl rfl

lemma stepAt {time : Nat} (hl : x.isOver base.length = false)
    (hb : x.mover? place = some .bystander →
      x.machine.world.tables.Keeps names n (x.stepAt place time).machine.world.tables) :
    (x.stepAt place time).Sound names n t₀ base := by
  cases htask : x.machine.tasks[place]? with
  | none =>
    simp only [Watch.stepAt, htask]
    exact h
  | some t =>
    obtain ⟨κ, hκ, ht⟩ := forall₂_getElem? h.tasks htask
    have hmover : x.mover? place = some (κ.moving t) := by simp [Watch.mover?, htask, hκ]
    have hready := h.ready time (Kin.task_moving ht) fun hc =>
      .inr (not_hasReturned hl htask (Kin.eq_caller_of_moving hc ▸ hκ))
    have hstep := Machine.stepAt_eq time htask
    simp only [Watch.stepAt, htask, hmover] at hb ⊢
    generalize κ.moving t = κ' at hready hb
    generalize State.step ⟨x.machine.world, { t with clock := time }⟩ = s at hready hstep hb
    have hworld : (x.machine.stepAt place time).world = { s.world with born := [] } := by
      rw [hstep, Machine.world_adopt, Machine.world_setTask]
    refine ⟨?_, ?_, ?_⟩
    · rw [hworld]
      exact { hready.world with born := forall_mem_nil _ }
    · rw [hworld] at hb ⊢
      obtain ⟨hsize, hescapes, hkept⟩ := hready.tables
      refine ⟨hsize, hescapes, ?_⟩
      cases κ' with
      | caller | offspring => exact hkept
      | bystander => exact h.tables.2.2.trans (hb rfl)
    · dsimp only
      rw [hstep, Machine.tasks_adopt, Machine.world_setTask, Machine.tasks_setTask]
      refine rel_append ?_ ?_
      · have hover : s.tick.task.isOver = s.task.isOver := rfl
        rw [hover]
        split
        · exact forall₂_eraseIdx h.tasks
        · exact forall₂_set h.tasks ⟨hready.stack, hready.control⟩
      · refine forall₂_map_right_iff.2 (forall₂_same.2 fun t' ht' => ?_)
        exact Policy.task_of_starting (R := plainRules names n) (hready.world.born t' ht')

lemma proceeds {x' : Watch} (hx : x.Proceeds names n base.length x') : x'.Sound names n t₀ base := by
  obtain ⟨place, ⟨hl, time, rfl⟩, hb⟩ := hx
  exact h.stepAt hl hb

end Watch.Sound

/-- The programs that are started are plain, and the names that they use are among these. -/
def PlainStarts (names : List String) (moves : List Move) : Prop :=
  ∀ source program, .launch source program ∈ moves → program.isPlain = true ∧ program.usedNames ⊆ names

variable {settings : Settings} {argv : List String} {files : FileTree} {input : List UInt8} {moves : List Move}
  {m : Machine}

lemma isolated_after (hp : PlainStarts names moves) : ((Machine.boot settings argv files input).after moves).Holds
    (isolation names 0 0 {}).shared ((isolation names 0 0 {}).task []) := by
  have hstart : (isolation names 0 0 {}).tables (Session.start settings argv files input).world.tables :=
    ⟨Nat.zero_le _, fun d hd => absurd hd (by simp [Session.start]), fun _ hid => absurd hid (Nat.not_lt_zero _)⟩
  refine (Machine.holds_boot hstart).after_of (isolation_lawful le_rfl) (fun _ _ => trivial) ?_
  rintro m source program hlaunch ⟨-, hescapes, -⟩
  refine ⟨⟨Nat.zero_le _, forall_mem_push hescapes (forall_mem_nil _), fun _ hid => absurd hid (Nat.not_lt_zero _)⟩, ?_⟩
  obtain ⟨hplain, hnames⟩ := hp source program hlaunch
  exact fun n hn => ⟨Module.complies_of_isPlain hplain hnames hn, .inl ⟨Nat.zero_le _, Nat.zero_le _⟩⟩

lemma sound_start (h : m.Holds (isolation names 0 0 {}).shared ((isolation names 0 0 {}).task []))
    (ht : m.tasks[place]? = some t) (hc : t.isCalling = true) :
    (Watch.start m place).Sound names m.world.tables.tables.size m.world.tables t.stack := by
  obtain ⟨⟨hworld, -, hescapes, -⟩, htasks⟩ := h
  refine ⟨hworld, ⟨Nat.le_refl _, hescapes, .refl⟩, ?_⟩
  have hbystanders : Forall₂
    (fun t' κ => (plainRules names (κ.level m.world.tables.tables.size)).task (κ.below t.stack) t')
      m.tasks (m.tasks.map fun _ => Kin.bystander) :=
    forall₂_map_right_iff.2 (forall₂_same.2 htasks)
  have hcaller : (plainRules names m.world.tables.tables.size).task t.stack t := by
    have hcall := (htasks t (mem_of_getElem? ht)).2
    refine ⟨⟨[], rfl, forall_mem_nil _⟩, ?_⟩
    unfold Task.isCalling at hc
    split at hc
    · rename_i heq
      rw [heq] at hcall ⊢
      exact hcall
    · contradiction
  have hself : m.tasks.set place t = m.tasks := by
    obtain ⟨hplace, rfl⟩ := List.getElem?_eq_some_iff.1 ht
    exact set_getElem_self hplace
  have hset := forall₂_set (i := place) (b := Kin.caller) hbystanders hcaller
  rwa [hself] at hset

end invariant

/-- While a function is called, and at the end of the call, the tables that were there before bind all names but those
declared with `using` as they did, unless a task that was running beside the caller changes them. -/
theorem bindings_kept_by_call {settings : Settings} {argv : List String} {files : FileTree} {input : List UInt8}
    {moves : List Move} {names : List String} {m : Machine} {place : Nat} {t : Task} {x : Watch}
    (hp : PlainStarts names moves) (hm : (Machine.boot settings argv files input).after moves = m)
    (ht : m.tasks[place]? = some t) (hc : t.isCalling = true)
    (hx : Relation.ReflTransGen (Watch.Proceeds names m.world.tables.tables.size t.stack.length) (.start m place) x) :
    m.world.tables.Keeps names m.world.tables.tables.size x.machine.world.tables := by
  have hsound : x.Sound names m.world.tables.tables.size m.world.tables t.stack := by
    induction hx with
    | refl => exact sound_start (hm ▸ isolated_after hp) ht hc
    | tail _ hstep ih => exact ih.proceeds hstep
  exact hsound.tables.2.2

/-- The steps of the tasks at these places, with or without bystanders among them. -/
def Watch.follow (depth : Nat) (beside : Bool) : Watch → List Nat → Option Watch
  | x, [] => some x
  | x, place :: places =>
    if x.isOver depth ∨ ¬beside ∧ x.mover? place = some .bystander then none
    else (x.stepAt place 0).follow depth beside places

lemma Watch.steps_of_follow {depth : Nat} {x x' : Watch} {R : Watch → Watch → Prop}
    (hR : ∀ x place x', x.Steps depth place x' → (beside = false → x.mover? place ≠ some .bystander) → R x x')
    (h : x.follow depth beside places = some x') : Relation.ReflTransGen R x x' := by
  induction places generalizing x with
  | nil => exact Option.some.inj h ▸ .refl
  | cons place places ih =>
    rw [follow] at h
    split at h
    · contradiction
    · rename_i hnot
      simp only [not_or, not_and, Bool.not_eq_true] at hnot
      exact .head (hR x place _ ⟨hnot.1, 0, rfl⟩ fun hb => hnot.2 (by simp [hb])) (ih h)

def launchMoves (program : Module) (places : List Nat) : List Move :=
  .launch ⟨"", ""⟩ program :: places.map (.step · 0)

lemma plainStarts_launchMoves {program : Module} (hp : program.isPlain = true) (places : List Nat) :
    PlainStarts program.usedNames (launchMoves program places) := by
  intro source program' h
  rcases mem_cons.1 h with heq | h
  · cases heq
    exact ⟨hp, Subset.refl _⟩
  · obtain ⟨_, -, h⟩ := mem_map.1 h
    contradiction

def Machine.watched (m : Machine) (place : Nat) (beside : Bool) (places : List Nat) : Option (Task × Watch) :=
  m.tasks[place]?.bind fun t => ((Watch.start m place).follow t.stack.length beside places).bind fun x =>
    if t.isCalling ∧ x.isOver t.stack.length then some (t, x) else none

lemma Machine.of_watched {m : Machine} {place : Nat} {t : Task} {x : Watch}
    (h : m.watched place beside places = some (t, x)) : m.tasks[place]? = some t ∧ t.isCalling = true ∧
      (Watch.start m place).follow t.stack.length beside places = some x ∧ x.isOver t.stack.length = true := by
  obtain ⟨t₁, ht, h⟩ := Option.bind_eq_some_iff.1 h
  obtain ⟨x₁, hx, h⟩ := Option.bind_eq_some_iff.1 h
  split at h
  · rename_i hends
    cases h
    exact ⟨ht, hends.1, hx, hends.2⟩
  · contradiction

def shadowProgram : Module := .ofTexts ["p = thread_pool_new(1)", "x = 1", "thread_pool_submit(p, defun() -> 0)",
  "defun f(n)
x = n
future_result(thread_pool_submit(p, defun() -> (let x = 3)), none)
return n / 0
done", "f(2)"]

def shadowMachine : Machine := (Machine.boot ⟨⟨""⟩, 10⟩ [] ⟨[], [], []⟩ []).after
  (launchMoves shadowProgram (replicate 29 0 ++ replicate 4 1))

/-- The call queues a job, and an older worker takes it. -/
theorem bindings_kept_by_failing_call :
    shadowProgram.isPlain = true ∧ ∃ t x, shadowMachine.tasks[0]? = some t ∧ t.isCalling = true ∧
      Relation.ReflTransGen (Watch.Proceeds shadowProgram.usedNames shadowMachine.world.tables.tables.size
        t.stack.length) (.start shadowMachine 0) x ∧ x.isOver t.stack.length = true ∧
      shadowMachine.world.tables.Keeps shadowProgram.usedNames shadowMachine.world.tables.tables.size
        x.machine.world.tables := by
  have hplain : shadowProgram.isPlain = true := by decide +kernel
  have hends : (shadowMachine.watched 0 false (replicate 21 0 ++ replicate 8 1 ++ replicate 11 0)).isSome = true := by
    decide +kernel
  obtain ⟨⟨t, x⟩, hcall⟩ := Option.isSome_iff_exists.1 hends
  obtain ⟨ht, hc, hx, hover⟩ := Machine.of_watched hcall
  have hproceeds : Relation.ReflTransGen (Watch.Proceeds shadowProgram.usedNames
      shadowMachine.world.tables.tables.size t.stack.length) (.start shadowMachine 0) x :=
    Watch.steps_of_follow (fun _ place _ hstep hb => ⟨place, hstep, fun hbystander => absurd hbystander (hb rfl)⟩) hx
  exact ⟨hplain, t, x, ht, hc, hproceeds, hover,
    bindings_kept_by_call (plainStarts_launchMoves hplain _) rfl ht hc hproceeds⟩

def raceProgram : Module := .ofTexts ["c = channel_new()", "d = channel_new()", "x = 1",
  "defun f() -> [channel_send(d, 0), channel_receive(c)]", "t = thread_start(defun() -> [x, f(), x])",
  "channel_receive(d)", "x = 2", "channel_send(c, 0)", "thread_join(t, none)"]

def Tables.bindsInt (t : Tables) (name : String) (n : Int64) : Bool :=
  match (t.table 0).get? name with
  | some (.int k) => k = n
  | _ => false

lemma Tables.get?_of_bindsInt {t : Tables} {name : String} {n : Int64} (h : t.bindsInt name n = true) :
    (t.table 0).get? name = some (.int n) := by
  unfold bindsInt at h
  split at h
  · rename_i k hget
    rw [hget, of_decide_eq_true h]
  · contradiction

def raceMachine : Machine := (Machine.boot ⟨⟨""⟩, 10⟩ [] ⟨[], [], []⟩ []).after
  (launchMoves raceProgram (replicate 35 0 ++ replicate 7 1))

/-- A bystander can change what a global name is bound to during a call. -/
theorem binding_changed_beside_call :
    raceProgram.isPlain = true ∧ raceProgram.usedNames = [] ∧ ∃ t x,
      raceMachine.tasks[1]? = some t ∧ t.isCalling = true ∧
      Relation.ReflTransGen (fun x x' => ∃ place, x.Steps t.stack.length place x') (Watch.start raceMachine 1) x ∧
      x.isOver t.stack.length = true ∧
      ¬ raceMachine.world.tables.Keeps [] raceMachine.world.tables.tables.size x.machine.world.tables := by
  have hplain : raceProgram.isPlain = true ∧ raceProgram.usedNames = [] := by decide +kernel
  have hends : (raceMachine.watched 1 true (replicate 17 1 ++ replicate 14 0 ++ replicate 3 1)).any (fun (_, x) =>
      0 < raceMachine.world.tables.tables.size && raceMachine.world.tables.bindsInt "x" 1 &&
        x.machine.world.tables.bindsInt "x" 2) = true := by
    decide +kernel
  obtain ⟨⟨t, x⟩, hcall, hbinds⟩ := (Option.any_eq_true _ _).1 hends
  obtain ⟨ht, hc, hx, hover⟩ := Machine.of_watched hcall
  simp only [Bool.and_eq_true, decide_eq_true_eq] at hbinds
  obtain ⟨⟨hsize, hbefore⟩, hafter⟩ := hbinds
  refine ⟨hplain.1, hplain.2, t, x, ht, hc, Watch.steps_of_follow (fun _ place _ hstep _ => ⟨place, hstep⟩) hx, hover,
    fun hkept => ?_⟩
  have hsame := hkept 0 hsize "x" not_mem_nil
  rw [Tables.get?_of_bindsInt hbefore, Tables.get?_of_bindsInt hafter] at hsame
  simp at hsame

end ScriptMachine
