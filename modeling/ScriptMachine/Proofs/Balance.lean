import ScriptMachine.Proofs.Passages
import ScriptMachine.Proofs.RecursionLimit

/-! The account that a task keeps is balanced. -/

namespace ScriptMachine

open List

def Frame.isLimit : Frame → Bool
  | .restoreDeadline _ => true
  | _ => false

lemma Frame.isPlain_iff {f : Frame} : f.isPlain = true ↔ f.isCounted = false ∧ f.isLimit = false := by
  cases f <;> simp [isPlain, isCounted, isLimit]

lemma Frame.isLimit_of_isCounted {f : Frame} (h : f.isCounted = true) : f.isLimit = false := by
  cases f with
  | restoreDeadline => contradiction
  | _ => rfl

def soonest (ends : List (Option Nat)) : Option Nat := ends.reduceOption.min?

/-- The frames put back the deadline `before` that held below them. Inside timeouts with these ends, the innermost
first, the deadline `now` holds. -/
inductive Limits (before : Option Deadline) : Option Deadline → List Frame → List (Option Nat) → Prop
  | base : Limits before before [] []
  | frame {now : Option Deadline} {f : Frame} {frames : List Frame} {ends : List (Option Nat)} : f.isLimit = false →
      Limits before now frames ends → Limits before now (f :: frames) ends
  | limit {now outer : Option Deadline} {frames : List Frame} {ends : List (Option Nat)} {time : Option Nat} :
      Limits before outer frames ends →
        now.map Deadline.at_ = soonest (time :: ends ++ [before.map Deadline.at_]) →
          Limits before now (.restoreDeadline outer :: frames) (time :: ends)

namespace Limits

variable {before now : Option Deadline} {frames new : List Frame} {ends : List (Option Nat)}

lemma append (hnew : ∀ f ∈ new, f.isLimit = false) (h : Limits before now frames ends) :
    Limits before now (new ++ frames) ends := by
  induction new with
  | nil => exact h
  | cons f new ih =>
    obtain ⟨hf, hnew⟩ := forall_mem_cons.1 hnew
    exact .frame hf (ih hnew)

lemma at_eq (h : Limits before now frames ends) :
    now.map Deadline.at_ = soonest (ends ++ [before.map Deadline.at_]) := by
  induction h with
  | base => cases before <;> rfl
  | frame _ _ ih => exact ih
  | limit _ hnow => exact hnow

lemma eq_of_nil (h : Limits before now [] ends) : now = before := by
  cases h
  rfl

lemma pop {f : Frame} (h : Limits before now (f :: frames) ends) :
    f.isLimit = false ∧ Limits before now frames ends ∨
      ∃ outer, f = .restoreDeadline outer ∧ Limits before outer frames ends.tail := by
  cases h with
  | frame hf hrest => exact .inl ⟨hf, hrest⟩
  | limit houter _ => exact .inr ⟨_, rfl, houter⟩

end Limits

structure Task.Owes (before t : Task) (frames : List Frame) (ends : List (Option Nat)) : Prop where
  depth : t.depth = before.depth + frames.countP Frame.isCounted
  deadline : Limits before.deadline t.deadline frames ends
  thread : t.thread = before.thread

namespace State

variable {s s' x y : State} {o : Task} {inner base : List Frame} {ends : List (Option Nat)} {ms : List Moment}

lemma Deepens.pushed (h : s.Deepens s') : ∃ new, s'.task.stack = new ++ s.task.stack ∧
    (∀ f ∈ new, f.isLimit = false) ∧ s'.task.depth = s.task.depth + new.countP Frame.isCounted ∧
      s'.task.deadline = s.task.deadline ∧ s'.task.thread = s.task.thread := by
  induction h with
  | refl => exact ⟨[], rfl, forall_mem_nil _, rfl, rfl, rfl⟩
  | work _ _ ih | share _ _ _ ih | spawn _ _ ih => exact ih
  | @push x f _ hf ih =>
    obtain ⟨new, hstack, hnew, hdepth, hrest⟩ := ih
    obtain ⟨hcounted, hlimit⟩ := Frame.isPlain_iff.1 hf
    refine ⟨f :: new, congrArg (f :: ·) hstack, forall_mem_cons.2 ⟨hlimit, hnew⟩, ?_, hrest⟩
    rw [countP_cons_of_neg (by simp [hcounted])]
    exact hdepth
  | @enter x f _ hf _ ih =>
    obtain ⟨new, hstack, hnew, hdepth, hrest⟩ := ih
    refine ⟨f :: new, congrArg (f :: ·) hstack, forall_mem_cons.2 ⟨Frame.isLimit_of_isCounted hf, hnew⟩, ?_, hrest⟩
    rw [countP_cons_of_pos hf, ← Nat.add_assoc, ← hdepth]

def timeouts (s : State) (ends : List (Option Nat)) : List (Option Nat) :=
  match s.timeLimit? with
  | some limit => s.after limit :: ends
  | none =>
    match s.task.control, s.task.stack with
    | .done _, .restoreDeadline _ :: _ => ends.tail
    | _, _ => ends

end State

namespace Task.Owes

open State

variable {s s' x y : State} {o : Task} {inner base : List Frame} {ends : List (Option Nat)} {ms : List Moment}

lemma deepens (h : o.Owes s.task inner ends) (hs : s.task.stack = inner ++ base) (hd : s.Deepens s') :
    ∃ inner', s'.task.stack = inner' ++ base ∧ o.Owes s'.task inner' ends := by
  obtain ⟨new, hstack, hnew, hdepth, hdeadline, hthread⟩ := hd.pushed
  refine ⟨new ++ inner, by rw [hstack, hs, append_assoc], ?_, ?_, hthread.trans h.thread⟩
  · rw [hdepth, h.depth, countP_append, Nat.add_assoc, Nat.add_comm (inner.countP _)]
  · rw [hdeadline]
    exact h.deadline.append hnew

lemma withDeadline (h : o.Owes s.task inner ends) (limit : Nat) :
    o.Owes (s.withDeadline limit).task (.restoreDeadline s.task.deadline :: inner) (s.after limit :: ends) := by
  refine ⟨h.depth, .limit h.deadline ?_, h.thread⟩
  have hat := h.deadline.at_eq
  unfold soonest at hat ⊢
  cases hend : s.after limit with
  | none =>
    have hkept : (s.withDeadline limit).task.deadline = s.task.deadline := by
      cases hd : s.task.deadline <;> simp [State.withDeadline, hend, hd]
    rw [hkept, hat]
    simp
  | some time =>
    cases hd : s.task.deadline with
    | none =>
      have hnone : (ends ++ [o.deadline.map Deadline.at_]).reduceOption.min? = none := by rw [← hat, hd]; rfl
      simp [State.withDeadline, hend, hd, min?_cons, hnone]
    | some d =>
      have hsome : (ends ++ [o.deadline.map Deadline.at_]).reduceOption.min? = some d.at_ := by rw [← hat, hd]; rfl
      simp only [State.withDeadline, hend, hd, cons_append, reduceOption_cons_of_some, min?_cons, hsome,
        Option.map_some, Option.elim_some]
      split
      · rename_i hle
        simp [Nat.min_eq_right hle]
      · rename_i hle
        simp [Nat.min_eq_left (Nat.le_of_not_le hle)]

lemma unwind {f : Frame} {c : Completion} (h : o.Owes s.task (f :: inner) ends) :
    o.Owes (s.unwind f c).task inner (if f.isLimit then ends.tail else ends) := by
  obtain ⟨hdepth, hdeadline, hthread⟩ := h
  rw [countP_cons] at hdepth
  rcases hdeadline.pop with ⟨hf, hrest⟩ | ⟨outer, rfl, houter⟩
  · rw [if_neg (by simp [hf])]
    cases f with
    | functionBody | leaveModule =>
      refine ⟨?_, hrest, hthread⟩
      simp only [Frame.isCounted, if_true] at hdepth
      simp only [State.unwind]
      omega
    | restoreDeadline => contradiction
    | threadEnd | jobEnd =>
      unfold State.unwind
      dsimp only
      split <;> exact ⟨hdepth, hrest, hthread⟩
    | _ => exact ⟨hdepth, hrest, hthread⟩
  · exact ⟨hdepth, houter, hthread⟩

lemma unwound (h : o.Owes s.task inner ends) (hs : s.task.stack = inner ++ base)
    (hr : s.task.hasReturned base.length = false) (hlimit : s.timeLimit? = none) :
    ∃ left, s.unwound.task.stack = left ++ base ∧ o.Owes s.unwound.task left (s.timeouts ends) := by
  cases hc : s.task.control with
  | eval | call | wait =>
    rw [unwound_of_not_done (by simp [hc]), timeouts, hlimit]
    simp only [hc]
    exact ⟨inner, hs, h⟩
  | done c =>
    cases inner with
    | nil => simp [Task.hasReturned, hc, hs] at hr
    | cons f inner =>
      have hends : s.timeouts ends = if f.isLimit then ends.tail else ends := by
        rw [timeouts, hlimit, hc, hs]
        cases f <;> rfl
      have hpopped : o.Owes (s.onto (inner ++ base)).task (f :: inner) ends := ⟨h.depth, h.deadline, h.thread⟩
      rw [unwound_of_done hc hs, hends]
      exact ⟨inner, stack_unwind, hpopped.unwind⟩

lemma step (h : o.Owes s.task inner ends) (hs : s.task.Above inner base) (hr : s.task.hasReturned base.length = false) :
    ∃ inner', s.step.task.Above inner' base ∧ o.Owes s.step.task inner' (s.timeouts ends) := by
  obtain ⟨inner', habove, -⟩ := step_above hs hr
  suffices howes : ∃ left, s.step.task.stack = left ++ base ∧ o.Owes s.step.task left (s.timeouts ends) by
    obtain ⟨left, hstack, howes⟩ := howes
    obtain rfl := append_cancel_right (hstack.symm.trans habove.stack)
    exact ⟨left, habove, howes⟩
  rcases s.step_cases with ⟨hlimit, hdeepens⟩ | ⟨limit, hlimit, hdeepens⟩ | ⟨c, future, pool, rest, hc, hstack, -⟩
  · obtain ⟨left, hleft, howes⟩ := h.unwound hs.stack hr hlimit
    exact howes.deepens hleft hdeepens
  · have hends : s.timeouts ends = s.after limit :: ends := by rw [timeouts, hlimit]
    rw [hends]
    exact (h.withDeadline limit).deepens (congrArg (_ :: ·) hs.stack) hdeepens
  · cases inner with
    | nil => simp [Task.hasReturned, hc, hs.stack] at hr
    | cons f inner =>
      obtain ⟨rfl, -⟩ := List.cons.inj (hstack.symm.trans hs.stack)
      exact absurd (hs.jobs _ (.head _)) (by simp [Frame.isJobEnd])

end Task.Owes

def timeoutsAfter (ms : List Moment) (ends : List (Option Nat)) : List (Option Nat) :=
  ms.foldl (fun ends m => if m.own then m.state.timeouts ends else ends) ends

theorem State.Passes.owes {s x : State} {o : Task} {inner base : List Frame} {ends : List (Option Nat)}
    {ms : List Moment}
    (h : s.Passes base ms x) (hs : s.task.Above inner base) (ho : o.Owes s.task inner ends) :
    ∃ inner', x.task.Above inner' base ∧ o.Owes x.task inner' (timeoutsAfter ms ends) := by
  induction h with
  | here => exact ⟨inner, hs, ho⟩
  | @act ms x time _ hr ih =>
    obtain ⟨inner', habove, howes⟩ := ih
    have hnow : o.Owes (x.at_ time).task inner' (timeoutsAfter ms ends) := ⟨howes.depth, howes.deadline, howes.thread⟩
    obtain ⟨inner'', habove', howes'⟩ := hnow.step ⟨habove.stack, habove.jobs⟩ hr
    refine ⟨inner'', ⟨habove'.stack, habove'.jobs⟩, ?_⟩
    rw [timeoutsAfter, foldl_append]
    exact ⟨howes'.depth, howes'.deadline, howes'.thread⟩
  | @other ms x y _ _ ih =>
    rw [timeoutsAfter, foldl_append]
    exact ih
  | launch _ _ ih => exact ih

inductive State.Begins (s : State) : State → Prop
  | node {n : Node} {ctx : Context} : s.task.control = .eval n ctx → Begins s s
  /-- A statement of a module or a namespace, or a default, whose signals are results or errors. -/
  | unit {x : State} {f : Frame} {n : Node} {ctx : Context} : f.unit? = some n → f.isPlain = true →
      s.step = (x.push f).eval n ctx → Begins s x
  | call {callee : Value} {args : List Value} {kwargs : Dict Value} {span : Span} {ctx : Context} :
      s.task.control = .call callee args kwargs span ctx → Begins s s
  | body {x : State} {closure : Closure} {inner : Context} : s.step = x.enterBody closure inner → Begins s x
  | drive {x : State} {id : Nat} {name : String} {span : Span} {ctx : Context} :
      s.step = x.drive id name span ctx → Begins s x

lemma Task.Owes.refl {t : Task} : t.Owes t [] [] := ⟨rfl, .base, rfl⟩

lemma State.Begins.owes {s x : State} (h : s.Begins x) :
    ∃ inner ends, s.step.task.Above inner x.task.stack ∧ x.task.Owes s.step.task inner ends := by
  have hself (hc : ∀ c, s.task.control ≠ .done c) :
      ∃ inner ends, s.step.task.Above inner s.task.stack ∧ s.task.Owes s.step.task inner ends := by
    have hr : s.task.hasReturned s.task.stack.length = false := by
      cases hcontrol : s.task.control with
      | done c => exact absurd hcontrol (hc c)
      | _ => simp [Task.hasReturned, hcontrol]
    obtain ⟨inner, hinner⟩ := Task.Owes.refl.step ⟨rfl, forall_mem_nil _⟩ hr
    exact ⟨inner, _, hinner⟩
  have hstage {s' : State} (hstep : s.step = s') (hdeepens : x.Deepens s') (hpiles : ∃ new, x.Piles .any new s') :
      ∃ inner ends, s.step.task.Above inner x.task.stack ∧ x.task.Owes s.step.task inner ends := by
    obtain ⟨new, hpiles⟩ := hpiles
    obtain ⟨inner, hstack, howes⟩ := Task.Owes.refl.deepens rfl hdeepens
    obtain rfl := append_cancel_right (hpiles.stack.symm.trans hstack)
    exact hstep ▸ ⟨new, [], ⟨hstack, hpiles.jobs⟩, howes⟩
  cases h with
  | node hc | call hc => exact hself (by simp [hc])
  | unit hunit hplain hstep => exact hstage hstep (Deepens.refl.push hplain).eval ⟨_, Lays.refl.unit rfl rfl hunit⟩
  | body hstep => exact hstage hstep Deepens.refl.enterBody Lays.refl.enterBody
  | drive hstep => exact hstage hstep Deepens.refl.drive Lays.refl.drive

namespace Machine

/-- In all histories of a machine the accounts of its tasks are balanced, and no task is deeper than the limit. -/
structure Balanced (b : Machine) (limit : Nat) : Prop where
  restores {moves later : List Move} {place time p q : Nat} {s x : State} {t : Task} :
    (b.after moves).mover? (.step place time) = some s → s.Begins x →
      (b.after moves).seat? place (.step place time) = some p →
        ((b.after moves).move (.step place time)).seatAfter x.task.stack.length p later = some q →
          (b.after (moves ++ .step place time :: later)).tasks[q]? = some t →
            t.hasReturned x.task.stack.length = true → t.stack = x.task.stack ∧ t.depth = x.task.depth ∧
              t.deadline = x.task.deadline ∧ t.thread = x.task.thread
  depth_le {moves : List Move} {t : Task} : t ∈ (b.after moves).tasks → t.depth ≤ limit
  deadline {moves later : List Move} {place q : Nat} {t t' : Task} {inner base : List Frame} :
    (b.after moves).tasks[place]? = some t → t.Above inner base → (∀ f ∈ inner, f.isLimit = false) → t.deadline = none →
      (b.after moves).seatAfter base.length place later = some q → (b.after (moves ++ later)).tasks[q]? = some t' →
        t'.deadline.map Deadline.at_ = soonest (timeoutsAfter ((b.after moves).moments place later) [])

end Machine

/-- In every run, each operation leaves the depth, the deadline and the thread of its task as they were, whether it
comes to a value, an error or a signal; the depth stays within the limit; and the deadline that holds inside timeouts is
the earliest of their ends, those that are not representable apart. -/
theorem bookkeeping_balanced (settings : Settings) (argv : List String) (files : FileTree) (input : List UInt8) :
    (Machine.boot settings argv files input).Balanced settings.maxDepth where
  restores {moves later place time p q s x t} hs hbegins hp hq ht hr := by
    rw [Machine.after_append] at ht
    obtain ⟨inner, ends, habove, howes⟩ := hbegins.owes
    obtain ⟨t', ht', hpasses⟩ := Machine.passes_next hs hp hq
    obtain rfl := Option.some.inj (ht'.symm.trans ht)
    have hnext : x.task.Owes s.next.task inner ends := ⟨howes.depth, howes.deadline, howes.thread⟩
    obtain ⟨left, hleft, ⟨hdepth, hdeadline, hthread⟩⟩ := hpasses.owes ⟨habove.stack, habove.jobs⟩ hnext
    obtain rfl : left = [] := hleft.eq_nil_of_hasReturned hr
    exact ⟨hleft.stack, hdepth, hdeadline.eq_of_nil, hthread⟩
  depth_le ht := ((Machine.counted_after _).2 _ ht).le
  deadline {moves later place q t t' inner base} ht habove hinner hnone hq ht' := by
    rw [Machine.after_append] at ht'
    obtain ⟨t'', ht'', hpasses⟩ := Machine.passes_after ht hq
    obtain rfl := Option.some.inj (ht''.symm.trans ht')
    have hcounted := ((Machine.counted_after moves).2 t (mem_of_getElem? ht)).depth
    have howes : Task.Owes { t with depth := base.countP Frame.isCounted } t inner [] := by
      refine ⟨?_, ?_, rfl⟩
      · rw [hcounted, Task.running, habove.stack, countP_append, Nat.add_comm]
      · simpa using Limits.base.append hinner
    obtain ⟨left, -, ⟨-, hdeadline, -⟩⟩ := hpasses.owes habove howes
    simpa [hnone, soonest, reduceOption_append] using hdeadline.at_eq

def caughtFailure : Module := .ofTexts ["defun f() -> missing", "catch(f)"]

def caughtFailureMoves : List Move := .launch ⟨"", ""⟩ caughtFailure :: replicate 7 (.step 0 0)

def caughtFailureMachine : Machine := (Machine.boot ⟨⟨""⟩, 10⟩ [] ⟨[], [], []⟩ []).after caughtFailureMoves

def caughtFailureState : State := ⟨caughtFailureMachine.world, { caughtFailureMachine.main with clock := 0 }⟩

def Control.isCall : Control → Bool
  | .call _ _ _ _ _ => true
  | _ => false

lemma State.begins_of_isCall {s : State} (h : s.task.control.isCall = true) : s.Begins s := by
  cases hc : s.task.control with
  | call => exact .call hc
  | eval | done | wait => simp [hc, Control.isCall] at h

/-- The task is in a function as that fails, and as deep as before once the error is caught. -/
theorem catch_restores_depth :
    (caughtFailureMachine.after (replicate 3 (.step 0 0))).main.depth = caughtFailureState.task.depth + 1 ∧
      ∃ t, (caughtFailureMachine.after (replicate 6 (.step 0 0))).tasks[0]? = some t ∧
        t.hasReturned caughtFailureState.task.stack.length = true ∧ t.stack = caughtFailureState.task.stack ∧
          t.depth = caughtFailureState.task.depth ∧ t.deadline = caughtFailureState.task.deadline ∧
            t.thread = caughtFailureState.task.thread := by
  -- The run is evaluated once, for all that is needed to know of it.
  have hrun : caughtFailureState.task.control.isCall = true ∧
      (caughtFailureMachine.after (replicate 3 (.step 0 0))).main.depth = caughtFailureState.task.depth + 1 ∧
      caughtFailureMachine.seat? 0 (.step 0 0) = some 0 ∧
      (caughtFailureMachine.move (.step 0 0)).seatAfter caughtFailureState.task.stack.length 0
        (replicate 5 (.step 0 0)) = some 0 ∧
      (caughtFailureMachine.after (replicate 6 (.step 0 0))).main.hasReturned
        caughtFailureState.task.stack.length = true := by
    decide +kernel
  obtain ⟨hcall, hdepth, hseat, hlater, hreturned⟩ := hrun
  refine ⟨hdepth, _, rfl, hreturned, ?_⟩
  exact (bookkeeping_balanced _ _ _ _).restores rfl (State.begins_of_isCall hcall) hseat hlater
    (Machine.after_append ▸ rfl) hreturned

end ScriptMachine
