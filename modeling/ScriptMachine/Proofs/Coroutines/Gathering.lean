import ScriptMachine.Proofs.Coroutines

/-! Coroutines that are gathered are driven one by one, from left to right, until one fails. -/

namespace ScriptMachine

open List

variable {ids : List (Nat × String)}

def Moment.Steers (base : List Frame) (m : Moment) : Prop :=
  m.own = true ∧ (m.state.task.stack = base ∨ m.state.task.hasReturned (base.length + 1) = true)

def gatheredAs (vs : List Value) : Option Failure → Completion
  | some f => .error f
  | none => .value (.list vs)

def memberValue (c : Nat × String) : Value := .coroutine c.1 c.2

/-- Above some frames a task gathers coroutines, so many of which it has not come to. -/
def Task.Gathering (base : List Frame) (left : Nat) (t : Task) : Prop :=
  ∃ ids : List (Nat × String), ids.length = left ∧
    ∃ done span ctx inner, t.Above inner (.gathered done (ids.map memberValue) span ctx :: base)

section

variable {t : Task} {base : List Frame} {left : Nat} (h : t.Gathering base left)
include h

lemma Task.Gathering.stack_ne_nil : t.stack ≠ [] := by
  obtain ⟨ids, -, done, span, ctx, inner, habove⟩ := h
  simp [habove.stack]

lemma Task.Gathering.at_time (time : Nat) : ({ t with clock := time } : Task).Gathering base left := by
  obtain ⟨ids, hids, done, span, ctx, inner, habove⟩ := h
  exact ⟨ids, hids, done, span, ctx, inner, habove.stack, habove.jobs⟩

lemma Task.Gathering.not_returned : t.hasReturned base.length = false := by
  obtain ⟨ids, -, done, span, ctx, inner, habove⟩ := h
  unfold hasReturned
  split
  · simp [habove.stack]
    omega
  · rfl

end

namespace State

variable {f : Failure} {s x y z : State} {id : Nat} {name : String} {span : Span}
  {ctx : Context} {c : Completion} {base : List Frame} {ms : List Moment}

def Drove (s : State) (id : Nat) (name : String) (ms : List Moment) (y : State) (c : Completion) : Prop :=
  ∃ x span ctx, s.Drives x id name span ctx ∧ s.next.Passes x.task.stack ms y ∧ y.task.stack = x.task.stack ∧
    y.task.control = .done c

/-- Above some frames a task drives coroutines one by one, until one fails: the values of those that do not, and the
failure of the one that does. Between one drive and the next only other tasks take steps. -/
inductive DrivesAll (base : List Frame) : State → List (Nat × String) → List Moment → List Value → Option Failure → Prop
  | done {s : State} : DrivesAll base s [] [] [] none
  | failed {s y : State} {id : Nat} {name : String} {rest : List (Nat × String)} {ms : List Moment} {f : Failure} :
      s.Drove id name ms y (.error f) → DrivesAll base s ((id, name) :: rest) (⟨true, s⟩ :: ms) [] (some f)
  | next {s y y' : State} {id time : Nat} {name : String} {rest : List (Nat × String)} {ms others ms' : List Moment}
      {v : Value} {vs : List Value} {failure : Option Failure} : s.Drove id name ms y (.value v) →
        y.Passes base others y' → (∀ m ∈ others, m.own = false) → DrivesAll base (y'.at_ time) rest ms' vs failure →
          DrivesAll base s ((id, name) :: rest) (⟨true, s⟩ :: (ms ++ others ++ ms')) (v :: vs) failure

lemma Drives.next_above (h : s.Drives x id name span ctx) :
    ∃ new, s.next.task.Above new x.task.stack ∧ ∀ σ, escapes σ (s.next.task.control.hasFree σ) new = false := by
  have hquiet : ∃ new, Piles ⟨fun _ => False⟩ new x (x.drive id name span ctx) :=
    Lays.refl.drive
  obtain ⟨new, hnew⟩ := hquiet
  refine ⟨new, ⟨?_, hnew.jobs⟩, fun σ => ?_⟩
  · change s.step.task.stack = _
    rw [h.step_eq]
    exact hnew.stack
  · change escapes σ (s.step.task.control.hasFree σ) new = false
    rw [h.step_eq]
    exact Bool.eq_false_iff.2 (hnew.signal σ)

lemma Drives.ends (h : s.Drives x id name span ctx) (hp : s.next.Passes x.task.stack ms y)
    (hy : y.task.stack = x.task.stack) (hc : y.task.control = .done c) : (∃ v, c = .value v) ∨ ∃ f, c = .error f := by
  obtain ⟨new, habove, hquiet⟩ := h.next_above
  obtain ⟨inner, habove', hescapes⟩ := hp.above habove
  have hnil : inner = [] := by simpa using habove'.stack.symm.trans hy
  subst hnil
  have hnone (σ : Signal) : c.signal? ≠ some σ := by
    intro hσ
    have hfree := hescapes σ (by simp [escapes, hc, Control.hasFree, hσ])
    rw [hquiet] at hfree
    contradiction
  cases c with
  | value v => exact .inl ⟨v, rfl⟩
  | error f => exact .inr ⟨f, rfl⟩
  | return_ => exact absurd rfl (hnone .return_)
  | break_ => exact absurd rfl (hnone .break_)
  | continue_ => exact absurd rfl (hnone .continue_)

lemma Starts.changes (h : s.Starts id) : s.step.world.coroutines[id]? ≠ s.world.coroutines[id]? := by
  intro hsame
  have hrunning := h.running
  obtain ⟨-, -, -, -, work, -, hpending⟩ := h
  exact nomatch hpending.symm.trans (hsame.symm.trans hrunning)

lemma Drives.eq_of_starts {id' : Nat} (h : s.Drives x id name span ctx) (h' : s.Starts id') : id' = id := by
  by_contra hne
  refine h'.changes ?_
  rw [h.step_eq]
  rcases @world_drive x id name span ctx with ⟨-, -, hw⟩ | ⟨-, hw⟩
  · rw [hw, ← h.world_eq]
    exact Array.getElem?_setIfInBounds_ne (Ne.symm hne)
  · rw [hw, h.world_eq]

lemma not_starts_of_world_eq (h : s.step.world = s.world) : ¬ s.Starts id := fun hstarts =>
  hstarts.changes (congrArg (fun w : World => w.coroutines[id]?) h)

variable {done members : List Value}

lemma step_of_gathered_all {v : Value} (hc : s.task.control = .done (.value v))
    (hs : s.task.stack = .gathered done [] span ctx :: base) : s.step = (s.onto base).value
    (.list (v :: done).reverse) :=
  step_of_done hc hs

lemma Drives.round {f : Frame} (h : s.Drives x id name span ctx) (hx : x.task.stack = f :: base)
    (hp : s.next.Passes base ms y) (hy : y.task.hasReturned base.length = true) :
    ∃ inside y₁ c others y₂ time rest, ms = inside ++ (others ++ ⟨true, y₂.at_ time⟩ :: rest) ∧
      s.Drove id name inside y₁ c ∧ ((∃ v, c = .value v) ∨ ∃ f, c = .error f) ∧
      y₁.Passes base others y₂ ∧ (∀ m ∈ others, m.own = false) ∧
      (y₂.at_ time).task.control = .done c ∧ (y₂.at_ time).task.stack = f :: base ∧
      (y₂.at_ time).next.Passes base rest y ∧
      ∀ m ∈ (⟨true, s⟩ : Moment) :: (inside ++ others), m.Steers base → ∀ id', m.state.Starts id' → id' = id := by
  obtain ⟨new, habove, -⟩ := h.next_above
  rw [hx] at habove
  obtain ⟨inside, y₁, c, after, rfl, hinside, hc, hstack, hafter⟩ := hp.split habove hy
  have hout : y₁.task.hasReturned base.length = false := by simp [Task.hasReturned, hc, hstack]
  obtain ⟨others, y₂, time, rest, rfl, hothers, hwait, htask, hrest⟩ := hafter.first hout hy
  have hdrove : s.Drove id name inside y₁ c := ⟨x, span, ctx, h, hx ▸ hinside, hstack.trans hx.symm, hc⟩
  refine ⟨inside, y₁, c, others, y₂, time, rest, rfl, hdrove, h.ends (hx ▸ hinside) (hstack.trans hx.symm) hc, hwait,
    hothers, ?_, ?_, hrest, ?_⟩
  · exact (congrArg Task.control htask).trans hc
  · exact (congrArg Task.stack htask).trans hstack
  · intro m hm hsteers id' hstarts
    rcases mem_cons.1 hm with rfl | hm
    · exact h.eq_of_starts hstarts
    · -- Inside the drive the task is above the frame, and it is not the one that moves outside.
      exfalso
      rcases mem_append.1 hm with hm | hm
      · obtain ⟨hreturned, inner, hinner⟩ := hinside.own_above habove m hm hsteers.1
        rcases hsteers.2 with hbase | hback
        · have hlength := congrArg List.length (hinner.symm.trans hbase)
          simp at hlength
          omega
        · exact Bool.false_ne_true (hreturned.symm.trans hback)
      · exact Bool.false_ne_true ((hothers m hm).symm.trans hsteers.1)

lemma next_of_finish (h : s.step = (s.onto base).finish c) : s.next.task.control = .done c ∧
    s.next.task.stack = base ∧ s.next.task.hasReturned base.length = true := by
  have hcontrol : s.next.task.control = .done c := congrArg (fun x : State => x.task.control) h
  have hstack : s.next.task.stack = base := congrArg (fun x : State => x.task.stack) h
  exact ⟨hcontrol, hstack, by simp [Task.hasReturned, hcontrol, hstack]⟩

lemma Passes.gathered_ends (hs : s.step = (s.onto base).finish c) (hp : s.next.Passes base ms y) {c' : Completion}
    (hc : y.task.control = .done c') :
    c' = c ∧ ∀ m ∈ (⟨true, s⟩ : Moment) :: ms, m.Steers base → ∀ id', ¬ m.state.Starts id' := by
  obtain ⟨hcontrol, -, hreturned⟩ := next_of_finish hs
  obtain ⟨htask, hothers⟩ := hp.of_hasReturned hreturned
  refine ⟨?_, fun m hm hsteers id' => ?_⟩
  · rw [htask, hcontrol] at hc
    exact (Control.done.inj hc).symm
  · rcases mem_cons.1 hm with rfl | hm
    · have hworld : s.step.world = s.world := by rw [hs]; rfl
      exact not_starts_of_world_eq hworld
    · exact absurd hsteers.1 (by simp [hothers m hm])

def GathersAll (base : List Frame) (s : State) (ids : List (Nat × String)) (ms : List Moment) (done : List Value)
    (c : Completion) : Prop :=
  ∃ driving vs failure, driving <+: ms ∧ DrivesAll base s ids driving vs failure ∧
    c = gatheredAs (done.reverse ++ vs) failure ∧
      ∀ m ∈ ms, m.Steers base → ∀ id, m.state.Starts id → id ∈ (ids.take (vs.length + 1)).map Prod.fst

lemma mem_round {α : Type} {a b c : α} {xs ys zs : List α} (h : a ∈ b :: (xs ++ (ys ++ c :: zs))) :
    a ∈ b :: (xs ++ ys) ∨ a ∈ c :: zs := by
  simp only [mem_cons, mem_append] at h ⊢
  tauto

lemma GathersAll.nil (hs : s.step = (s.onto base).value (.list done.reverse)) (hp : s.next.Passes base ms y)
    (hc : y.task.control = .done c) : GathersAll base s [] (⟨true, s⟩ :: ms) done c := by
  obtain ⟨rfl, hlast⟩ := hp.gathered_ends hs hc
  refine ⟨[], [], none, by simp, .done, ?_, fun m hm hsteers id hstarts => absurd hstarts (hlast m hm hsteers id)⟩
  simp [gatheredAs]

section round

variable {inside others rest : List Moment} {time : Nat} {v : Value}
  (hown : ∀ m ∈ (⟨true, s⟩ : Moment) :: (inside ++ others), m.Steers base → ∀ id', m.state.Starts id' → id' = id)
include hown

lemma GathersAll.failed (hdrove : s.Drove id name inside y (.error f))
    (hstep : z.step = (z.onto base).finish (.error f)) (hrest : z.next.Passes base rest x)
    (hc : x.task.control = .done c) :
    GathersAll base s ((id, name) :: ids) (⟨true, s⟩ :: (inside ++ (others ++ ⟨true, z⟩ :: rest))) done c := by
  obtain ⟨rfl, hlast⟩ := hrest.gathered_ends hstep hc
  refine ⟨⟨true, s⟩ :: inside, [], some f, by simp, .failed hdrove, rfl, fun m hm hsteers id' hstarts => ?_⟩
  rcases mem_round hm with hm | hm
  · simp [hown m hm hsteers id' hstarts]
  · exact absurd hstarts (hlast m hm hsteers id')

lemma GathersAll.cons (hdrove : s.Drove id name inside y (.value v)) (hwait : y.Passes base others z)
    (hothers : ∀ m ∈ others, m.own = false)
    (h : GathersAll base (z.at_ time) ids (⟨true, z.at_ time⟩ :: rest) (v :: done) c) :
    GathersAll base s ((id, name) :: ids) (⟨true, s⟩ :: (inside ++ (others ++ ⟨true, z.at_ time⟩ :: rest))) done c := by
  obtain ⟨driving, vs, failure, ⟨left, hleft⟩, hdriving, rfl, hlater⟩ := h
  refine ⟨⟨true, s⟩ :: (inside ++ others ++ driving), v :: vs, failure, ⟨left, by simp [hleft]⟩,
    .next hdrove hwait hothers hdriving, by simp, fun m hm hsteers id' hstarts => ?_⟩
  rcases mem_round hm with hm | hm
  · simp [hown m hm hsteers id' hstarts]
  · exact mem_cons_of_mem _ (hlater m hm hsteers id' hstarts)

end round

/-- It is left to see what comes after a drive that gives a value. -/
lemma Drives.gathersAll (h : s.Drives x id name span ctx)
    (hx : x.task.stack = .gathered done (ids.map memberValue) span ctx :: base) (hp : s.next.Passes base ms y)
    (hy : y.task.stack = base) (hc : y.task.control = .done c)
    (hnext : ∀ {z v rest}, z.task.control = .done (.value v) →
      z.task.stack = .gathered done (ids.map memberValue) span ctx :: base → z.next.Passes base rest y →
        GathersAll base z ids (⟨true, z⟩ :: rest) (v :: done) c) :
    GathersAll base s ((id, name) :: ids) (⟨true, s⟩ :: ms) done c := by
  obtain ⟨inside, y₁, c₁, others, y₂, time, rest, rfl, hdrove, hends, hwait, hothers, hcontrol, hstack, hrest, hown⟩ :=
    h.round hx hp (by simp [Task.hasReturned, hc, hy])
  rcases hends with ⟨v, rfl⟩ | ⟨f, rfl⟩
  · exact .cons hown hdrove hwait hothers (hnext hcontrol hstack hrest)
  · exact .failed hown hdrove (step_of_done hcontrol hstack) hrest hc

theorem drives_members (h : s.Drives x id name span ctx)
    (hx : x.task.stack = .gathered done (ids.map memberValue) span ctx :: base) (hp : s.next.Passes base ms y)
    (hy : y.task.stack = base) (hc : y.task.control = .done c) :
    GathersAll base s ((id, name) :: ids) (⟨true, s⟩ :: ms) done c := by
  induction ids generalizing s x id name done ms with
  | nil => exact h.gathersAll hx hp hy hc fun hz hs hrest => .nil (step_of_gathered_all hz hs) hrest hc
  | cons next ids ih => exact h.gathersAll hx hp hy hc fun hz hs hrest => ih (.next hz hs) rfl hrest

theorem Gathers.gathersAll (h : s.Gathers (ids.map memberValue) span ctx) (hp : s.next.Passes s.task.stack ms y)
    (hy : y.task.stack = s.task.stack) (hc : y.task.control = .done c) :
    GathersAll s.task.stack s ids (⟨true, s⟩ :: ms) [] c := by
  cases ids with
  | nil => exact .nil h.step_eq hp hc
  | cons first ids =>
    obtain ⟨⟨args, kwargs, bound, hcall, hbound, hitems⟩, hall⟩ := h
    exact drives_members (.gather hcall hbound hitems hall) rfl hp hy hc

section gathering

variable {left : Nat}

lemma Drives.gathering (h : s.Drives x id name span ctx)
    (hx : x.task.stack = .gathered done (ids.map memberValue) span ctx :: base) :
    s.next.task.Gathering base ids.length := by
  obtain ⟨new, habove, -⟩ := h.next_above
  exact ⟨ids, rfl, done, span, ctx, new, hx ▸ habove⟩

/-- When a drive has come back, the next step ends the gather or drives the next one. -/
lemma gathering_back (h : s.task.Gathering base left) (hr : s.task.hasReturned (base.length + 1) = true) :
    (s.next.task.stack = base ∧ s.next.task.hasReturned base.length = true) ∨
      ∃ k < left, s.next.task.Gathering base k := by
  obtain ⟨ids, rfl, done, span, ctx, inner, habove⟩ := h
  obtain rfl := habove.eq_nil_of_hasReturned hr
  obtain ⟨c, hc⟩ := Task.exists_done_of_hasReturned hr
  cases c with
  | value v =>
    cases ids with
    | nil => exact .inl (next_of_finish (step_of_gathered_all hc habove.stack)).2
    | cons next ids =>
      exact .inr ⟨ids.length, Nat.lt_succ_self _, (Drives.next hc habove.stack).gathering rfl⟩
  | error | return_ | break_ | continue_ => exact .inl (next_of_finish (step_of_done hc habove.stack)).2

lemma Passes.gathering (h : s.Passes base ms y) (hs : s.task.Gathering base left) :
    y.task.hasReturned base.length = true ∨ ∃ k ≤ left, y.task.Gathering base k := by
  induction h with
  | here => exact .inr ⟨left, le_rfl, hs⟩
  | @act ms x time _ hr ih =>
    obtain hback | ⟨k, hk, hgathering⟩ := ih
    · exact absurd (hr.symm.trans hback) Bool.false_ne_true
    cases hback : (x.at_ time).task.hasReturned (base.length + 1) with
    | true =>
      refine (gathering_back (hgathering.at_time time) hback).imp And.right ?_
      exact fun ⟨k', hlt, hnext⟩ => ⟨k', by omega, hnext⟩
    | false =>
      obtain ⟨ids, hids, done, span, ctx, inner, habove⟩ := hgathering
      obtain ⟨inner', habove', -⟩ := step_above (s := x.at_ time) ⟨habove.stack, habove.jobs⟩ hback
      exact .inr ⟨k, hk, ids, hids, done, span, ctx, inner', habove'.stack, habove'.jobs⟩
  | other _ _ ih | launch _ _ ih => exact ih

end gathering

lemma Drives.timeout_done {args : List Value} {kwargs : Dict Value} {r : Result} (h : s.Drives x id name span ctx)
    (hc : s.task.control = .call (.builtin .timeout) args kwargs span ctx)
    (hr : s.world.coroutines[id]? = some (.done r)) :
    s.step.step = s.finish (.ofResult r) := by
  rw [(h.answers.done hr).1]
  cases h with
  | await hc' | settle hc' | gather hc' | next hc' => exact nomatch hc.symm.trans hc'
  | timeout => cases r <;> rfl

end State

namespace Machine

variable {m : Machine} {place time : Nat} {moves : List Move} {s : State} {ms : List Moment} {c : Completion}

/-- A task takes a step, and when it is back for the first time at the frames that it had then, it is with a
completion. -/
structure Completes (m : Machine) (place time : Nat) (moves : List Move) (s : State) (ms : List Moment)
    (c : Completion) :
    Prop where
  mover : m.mover? (.step place time) = some s
  moments : ms = m.moments place (.step place time :: moves)
  ends : ∃ q t, m.seatAfter s.task.stack.length place (.step place time :: moves) = some q ∧
    (m.after (.step place time :: moves)).tasks[q]? = some t ∧ t.hasReturned s.task.stack.length = true ∧
      t.control = .done c

lemma Completes.passes (h : m.Completes place time moves s ms c) :
    ∃ rest y, ms = ⟨true, s⟩ :: rest ∧ s.next.Passes s.task.stack rest y ∧ y.task.stack = s.task.stack ∧
      y.task.control = .done c := by
  obtain ⟨hmover, rfl, q, t, hseat, ht, hreturned, hcontrol⟩ := h
  obtain ⟨t₀, ht₀, rfl⟩ := Option.map_eq_some_iff.1 hmover
  simp only [seatAfter, ht₀, Option.any_some, Option.ite_none_left_eq_some, Option.bind_eq_some_iff] at hseat
  obtain ⟨hr, q₀, hq₀, hrest⟩ := hseat
  obtain ⟨t', ht', hpasses⟩ := passes_next hmover hq₀ hrest
  obtain rfl := Option.some.inj (ht'.symm.trans ht)
  refine ⟨(m.move (.step place time)).moments q₀ moves, ⟨(m.after (.step place time :: moves)).world, t'⟩, ?_, ?_, ?_,
    hcontrol⟩
  · simp [Machine.moments, hq₀, moment?, hmover]
  · exact hpasses
  · -- The task was above its frames all the time, so it is at them now.
    have hstart : ({ t₀ with clock := time } : Task).Above [] t₀.stack := ⟨rfl, forall_mem_nil _⟩
    obtain ⟨inner, habove, -⟩ := State.step_above (s := ⟨m.world, { t₀ with clock := time }⟩) hstart
      (by simpa [Task.hasReturned] using hr)
    obtain ⟨inner', habove', -⟩ := hpasses.above ⟨habove.stack, habove.jobs⟩
    obtain rfl := habove'.eq_nil_of_hasReturned hreturned
    exact habove'.stack

/-- After some moves the task that was at a place is found at another one. -/
structure Finds (m : Machine) (depth place : Nat) (moves : List Move) (q : Nat) (t : Task) : Prop where
  seat : m.seatAfter depth place moves = some q
  task : (m.after moves).tasks[q]? = some t

def upTo (schedule : Nat → Move) (n : Nat) : List Move := (range n).map schedule

/-- However far the schedule has been followed, a task that has not come back to its frames comes back to the one on top
of them, and takes a step. -/
def ComesBack (m : Machine) (depth place : Nat) (first : Move) (schedule : Nat → Move) : Prop :=
  ∀ n q t, m.Finds depth place (first :: upTo schedule n) q t → t.hasReturned depth = false →
    ∃ k q' t' time, n ≤ k ∧ m.Finds depth place (first :: upTo schedule k) q' t' ∧ t'.hasReturned (depth + 1) = true ∧
      schedule k = .step q' time

section completion

variable {depth q left : Nat} {t : Task} {first : Move} {schedule : Nat → Move} {base : List Frame}

lemma Finds.step (h : m.Finds depth place moves q t) (hr : t.hasReturned depth = false)
    (hne : (State.next ⟨(m.after moves).world, { t with clock := time }⟩).task.stack ≠ []) :
    m.Finds depth place (moves ++ [.step q time]) q
      (State.next ⟨(m.after moves).world, { t with clock := time }⟩).task := by
  have hover : (State.step ⟨(m.after moves).world, { t with clock := time }⟩).task.isOver = false := by
    unfold Task.isOver
    split
    · rename_i hs
      exact absurd hs hne
    · rfl
  have hseat : (m.after moves).seat? q (.step q time) = some q := by simp [seat?, h.task, hover]
  refine ⟨?_, ?_⟩
  · simp [seatAfter_append, h.seat, seatAfter, h.task, hr, hseat]
  · rw [after_append]
    exact (getElem?_stepAt h.task hseat h.task).trans (congrArg some (if_pos rfl))

lemma Finds.gathering {later : List Move} {q' : Nat} {t' : Task} (h : m.Finds base.length place moves q t)
    (ht : t.Gathering base left) (h' : m.Finds base.length place (moves ++ later) q' t') :
    t'.hasReturned base.length = true ∨ ∃ k ≤ left, t'.Gathering base k := by
  have hseat := h'.seat
  rw [seatAfter_append, h.seat] at hseat
  obtain ⟨t'', ht'', hpasses⟩ := passes_after h.task hseat
  rw [← after_append, h'.task] at ht''
  cases ht''
  exact hpasses.gathering ht

/-- With each drive that comes back fewer coroutines are left. -/
lemma Finds.comes_back (hback : m.ComesBack base.length place first schedule) (hne : base ≠ []) {n : Nat}
    (h : m.Finds base.length place (first :: upTo schedule n) q t) (ht : t.Gathering base left) :
    ∃ n q t, m.Finds base.length place (first :: upTo schedule n) q t ∧ t.hasReturned base.length = true := by
  induction left using Nat.strong_induction_on generalizing n q t with
  | _ left ih =>
    obtain ⟨k, q', t', time, hle, h', hback', hmove⟩ := hback n q t h ht.not_returned
    obtain ⟨j, rfl⟩ := Nat.exists_eq_add_of_le hle
    have hsplit : first :: upTo schedule (n + j) =
          (first :: upTo schedule n) ++ (range j).map (schedule ∘ (n + ·)) := by
      simp [upTo, range_add]
    obtain hends | ⟨left', hle', ht'⟩ := h.gathering ht (hsplit ▸ h')
    · exact ⟨_, q', t', h', hends⟩
    have hlast : first :: upTo schedule (n + j + 1) = (first :: upTo schedule (n + j)) ++ [.step q' time] := by
      simp [upTo, range_succ, hmove]
    rcases State.gathering_back (s := ⟨_, { t' with clock := time }⟩) (ht'.at_time time) hback' with
        ⟨hstack, hends⟩ | ⟨k, hk, hnext⟩
    · have hstep : m.Finds base.length place (_ ++ [.step q' time]) q' _ :=
        h'.step ht'.not_returned (by rw [hstack]; exact hne)
      exact ⟨n + j + 1, q', _, hlast ▸ hstep, hends⟩
    · have hstep := h'.step ht'.not_returned hnext.stack_ne_nil
      exact ih k (by omega) (hlast ▸ hstep) hnext

/-- It is enough to see the task come back for the last time. -/
lemma comesBack_of_returned {k q' : Nat} {t' : Task} (h : m.Finds depth place (first :: upTo schedule k) q t)
    (hback : t.hasReturned (depth + 1) = true) (hmove : schedule k = .step q time)
    (h' : m.Finds depth place (first :: upTo schedule (k + 1)) q' t') (hreturned : t'.hasReturned depth = true) :
    m.ComesBack depth place first schedule := by
  intro n p u hn hout
  rcases Nat.lt_or_ge k n with hlt | hle
  · exfalso
    obtain ⟨j, rfl⟩ := Nat.exists_eq_add_of_lt hlt
    have hseat := hn.seat
    rw [show k + j + 1 = k + 1 + j by omega] at hn hseat
    rw [upTo, range_add, map_append, ← cons_append, seatAfter_append, ← upTo, h'.seat] at hseat
    cases j with
    | zero =>
      obtain rfl := Option.some.inj (h'.seat.symm.trans hn.seat)
      obtain rfl := Option.some.inj (h'.task.symm.trans hn.task)
      exact Bool.false_ne_true (hout.symm.trans hreturned)
    | succ j => simp [range_succ_eq_map, seatAfter, h'.task, hreturned] at hseat
  · exact ⟨k, q, t, time, hle, h, hback, hmove⟩

theorem gather_completes {span : Span} {ctx : Context} (hs : m.mover? (.step place time) = some s)
    (h : s.Gathers (ids.map memberValue) span ctx) (hne : s.task.stack ≠ [])
    (hback : m.ComesBack s.task.stack.length place (.step place time) schedule) :
    ∃ n ms c, m.Completes place time (upTo schedule n) s ms c := by
  have hends : ∃ n q t, m.Finds s.task.stack.length place (.step place time :: upTo schedule n) q t ∧
      t.hasReturned s.task.stack.length = true := by
    obtain ⟨t₀, ht₀, rfl⟩ := Option.map_eq_some_iff.1 hs
    have hcall := h.call
    obtain ⟨args, kwargs, bound, hcontrol, hbound, hitems⟩ := hcall
    have hstart : m.Finds t₀.stack.length place [] place t₀ := ⟨rfl, ht₀⟩
    have hr : t₀.hasReturned t₀.stack.length = false := by simp [Task.hasReturned, show t₀.control = _ from hcontrol]
    cases ids with
    | nil =>
      obtain ⟨-, hstack, hreturned⟩ := State.next_of_finish (c := .value (.list [])) h.step_eq
      exact ⟨0, place, _, hstart.step hr fun hnil => hne (hstack.symm.trans hnil), hreturned⟩
    | cons first ids =>
      have hdrives := State.Drives.gather hcontrol hbound hitems h.coroutines
      have hnext := hdrives.gathering rfl
      exact (hstart.step hr hnext.stack_ne_nil).comes_back (n := 0) hback hne hnext
  obtain ⟨n, q, t, hfound, hreturned⟩ := hends
  obtain ⟨c, hc⟩ := Task.exists_done_of_hasReturned hreturned
  exact ⟨n, _, c, hs, rfl, q, t, hfound.seat, hfound.task, hreturned, hc⟩

end completion

structure RunsOnce (b : Machine) : Prop where
  /-- A coroutine starts to run only as the task that moves starts its work, and has a result only as its work ends. -/
  turns {moves : List Move} {move : Move} {id : Nat} {c : Coroutine} : (b.after moves).world.coroutines[id]? = some c →
    ∃ c', ((b.after moves).move move).world.coroutines[id]? = some c' ∧
      (c' = c ∨ ∃ s, (b.after moves).mover? move = some s ∧ s.Turns id c c')
  fresh {moves : List Move} {move : Move} {id : Nat} {c : Coroutine} : (b.after moves).world.coroutines[id]? = none →
    ((b.after moves).move move).world.coroutines[id]? = some c → ∃ work, c = .pending work
  once {moves later : List Move} {move move' : Move} {id : Nat} {s s' : State} : (b.after moves).mover? move = some s →
    s.Starts id → (b.after (moves ++ move :: later)).mover? move' = some s' → ¬ s'.Starts id
  kept {moves later : List Move} {id : Nat} {r : Result} : (b.after moves).world.coroutines[id]? = some (.done r) →
    (b.after (moves ++ later)).world.coroutines[id]? = some (.done r)
  answers {s x : State} {id : Nat} {name : String} {span : Span} {ctx : Context} : s.Drives x id name span ctx →
    s.Answers x id name span ctx
  timeout {s x : State} {id : Nat} {name : String} {args : List Value} {kwargs : Dict Value} {span : Span}
    {ctx : Context}
    {r : Result} : s.Drives x id name span ctx → s.task.control = .call (.builtin .timeout) args kwargs span ctx →
      s.world.coroutines[id]? = some (.done r) → s.step.step = s.finish (.ofResult r)
  /-- Those that are gathered are driven one by one until one fails; others stay pending, unless somebody else starts
  them. -/
  gathers {moves later : List Move} {place time : Nat} {s : State} {ids : List (Nat × String)} {span : Span}
    {ctx : Context}
    {ms : List Moment} {c : Completion} : (b.after moves).Completes place time later s ms c →
      s.Gathers (ids.map memberValue) span ctx → ∃ driving vs failure, driving <+: ms ∧
        State.DrivesAll s.task.stack s ids driving vs failure ∧ c = gatheredAs vs failure ∧
          ∀ id work, s.world.coroutines[id]? = some (.pending work) → id ∉ (ids.take (vs.length + 1)).map Prod.fst →
            (∀ m ∈ ms, m.state.Starts id → m.Steers s.task.stack) →
              (b.after (moves ++ .step place time :: later)).world.coroutines[id]? = some (.pending work)
  /-- A gather that comes back from each of its drives completes. -/
  completes {moves : List Move} {schedule : Nat → Move} {place time : Nat} {s : State} {ids : List (Nat × String)}
    {span : Span} {ctx : Context} : (b.after moves).mover? (.step place time) = some s →
      s.Gathers (ids.map memberValue) span ctx → s.task.stack ≠ [] →
        (b.after moves).ComesBack s.task.stack.length place (.step place time) schedule →
          ∃ n ms c, (b.after moves).Completes place time (upTo schedule n) s ms c

end Machine

def Value.member? : Value → Option (Nat × String)
  | .coroutine id name => some (id, name)
  | _ => none

lemma eq_map_memberValue {vs : List Value} (h : vs.mapM Value.member? = some ids) : vs = ids.map memberValue := by
  induction vs generalizing ids with
  | nil =>
    cases h
    rfl
  | cons v vs ih =>
    simp only [mapM_cons, Option.bind_eq_bind, Option.bind_eq_some_iff, Option.pure_def, Option.some.injEq] at h
    obtain ⟨c, hc, ids, hids, rfl⟩ := h
    rw [map_cons, ← ih hids]
    cases v with
    | coroutine id name =>
      cases hc
      rfl
    | _ => contradiction

def State.gathered? (s : State) : Option (List (Nat × String)) :=
  match s.task.control with
  | .call (.builtin .gather) args kwargs span ctx => do
    let bound ← (Builtin.gather.bind args kwargs).toOption
    let members ← (Invocation.items ⟨.gather, bound, span, ctx⟩ s.world.heap 0).toOption
    members.mapM Value.member?
  | _ => none

lemma Except.eq_ok_of_toOption {α ε : Type} {r : Except ε α} {a : α} (h : r.toOption = some a) : r = .ok a := by
  cases r with
  | ok b =>
    cases h
    rfl
  | error e => contradiction

lemma State.gathers_of_gathered? {s : State} (h : s.gathered? = some ids) :
    ∃ span ctx, s.Gathers (ids.map memberValue) span ctx := by
  unfold gathered? at h
  split at h
  · rename_i args kwargs span ctx hcontrol
    simp only [Option.bind_eq_bind, Option.bind_eq_some_iff] at h
    obtain ⟨bound, hbound, members, hmembers, hids⟩ := h
    obtain rfl := eq_map_memberValue hids
    have hcall := And.intro (Except.eq_ok_of_toOption hbound) (Except.eq_ok_of_toOption hmembers)
    refine ⟨span, ctx, ⟨args, kwargs, bound, hcontrol, hcall⟩, ?_⟩
    simp [memberValue, isCoroutine]
  · contradiction

def gatheringProgram : Module :=
  .ofTexts ["async defun f(x) -> x", "async defun g() -> y", "c = f(\"a\")", "d = f(2)", "gather([c, c])",
    "gather([c, g(), d])"]

def gatheringMachine (n : Nat) : Machine :=
  (Machine.boot ⟨⟨""⟩, 10⟩ [] ⟨[], [], []⟩ []).after (.launch ⟨"", ""⟩ gatheringProgram :: replicate n (.step 0 0))

def gatheringState (n : Nat) : State := ⟨(gatheringMachine n).world, { (gatheringMachine n).main with clock := 0 }⟩

abbrev stepping (n : Nat) : List Move := Machine.upTo (fun _ => .step 0 0) n

def Control.listsTwice : Control → Bool
  | .done (.value (.list [.str "a", .str "a"])) => true
  | _ => false

lemma Control.eq_of_listsTwice {c : Control} (h : c.listsTwice = true) :
    c = .done (.value (.list [.str "a", .str "a"])) := by
  unfold listsTwice at h
  split at h
  · rfl
  · contradiction

end ScriptMachine
