import ScriptMachine.Proofs.Growth

/-! A task at work above some frames of its stack. -/

namespace ScriptMachine

open List

variable {σ : Signal} {a : Bool} {frames : List Frame}

lemma escapes_append {frames' : List Frame} :
    escapes σ a (frames ++ frames') = escapes σ (escapes σ a frames) frames' := by
  induction frames generalizing a with
  | nil => rfl
  | cons f frames ih => exact ih

lemma Frame.passes_mono {f : Frame} {b : Bool} (h : a = true → b = true) :
    f.passes σ a = true → f.passes σ b = true := by
  cases a <;> cases b <;> simp_all [passes]

lemma escapes_mono {b : Bool} (h : a = true → b = true) : escapes σ a frames = true → escapes σ b frames = true := by
  induction frames generalizing a b with
  | nil => exact h
  | cons f frames ih => exact ih (Frame.passes_mono h)

lemma or_of_escapes (h : escapes σ a frames = true) : a = true ∨ ∃ f ∈ frames, f.hasFree σ = true := by
  induction frames generalizing a with
  | nil => exact .inl h
  | cons f frames ih =>
    rcases ih h with hpasses | ⟨g, hg, hfree⟩
    · rcases Bool.or_eq_true_iff.1 hpasses with hfree | habove
      · exact .inr ⟨f, .head _, hfree⟩
      · exact .inl (Bool.and_eq_true_iff.1 habove).1
    · exact .inr ⟨g, .tail _ hg, hfree⟩

def Sealed (control : Control) (frames : List Frame) : Prop :=
  ∀ above f below n, frames = above ++ f :: below → f.unit? = some n →
    ∀ σ, escapes σ (control.hasFree σ) above = true → n.hasFree σ = true

def Frame.isJobEnd : Frame → Bool
  | .jobEnd _ _ => true
  | _ => false

structure Task.Above (t : Task) (inner base : List Frame) : Prop where
  stack : t.stack = inner ++ base
  jobs : ∀ f ∈ inner, f.isJobEnd = false

lemma Task.Above.eq_nil_of_hasReturned {t : Task} {inner base : List Frame} (h : t.Above inner base)
    (hr : t.hasReturned base.length = true) : inner = [] := by
  cases hc : t.control with
  | done c => simpa [hasReturned, hc, h.stack] using hr
  | eval | call | wait => simp [hasReturned, hc] at hr

lemma Task.exists_done_of_hasReturned {t : Task} {depth : Nat} (h : t.hasReturned depth = true) :
    ∃ c, t.control = .done c := by
  cases hc : t.control with
  | done c => exact ⟨c, rfl⟩
  | eval | call | wait => simp [hasReturned, hc] at h

structure Leeway.Lets (L : Leeway) (f : Frame) : Prop where
  unit : f.unit? = none
  job : f.isJobEnd = false
  free : L.allows (f.hasFree ·)

lemma Leeway.Lets.of_isOrdinary {L : Leeway} {f : Frame} (hf : f.isOrdinary = true) (h : L.allows (f.hasFree ·)) :
    L.Lets f := by
  refine ⟨?_, ?_, h⟩
  · cases f with
    | moduleStatement | namespaceBody | default | functionBody => contradiction
    | _ => rfl
  · cases f with
    | jobEnd => contradiction
    | _ => rfl

namespace State

variable {L : Leeway} {s x s' : State} {new : List Frame}

structure Piles (L : Leeway) (new : List Frame) (s s' : State) : Prop where
  stack : s'.task.stack = new ++ s.task.stack
  signal : L.allows fun σ => escapes σ (s'.task.control.hasFree σ) new
  sealed_ : Sealed s'.task.control new
  jobs : ∀ f ∈ new, f.isJobEnd = false

structure Lays (L : Leeway) (new : List Frame) (s x : State) : Prop where
  stack : x.task.stack = new ++ s.task.stack
  lets : ∀ f ∈ new, L.Lets f

namespace Lays

variable {ctx : Context} {span : Span} {ns : Namespace} {name : String} {p : Producer} {limit : Option Nat}

lemma refl : Lays L [] s s := ⟨rfl, forall_mem_nil _⟩

variable (h : Lays L new s x)
include h

lemma push {f : Frame} (hf : L.Lets f) : Lays L (f :: new) s (x.push f) :=
  ⟨congrArg (f :: ·) h.stack, forall_mem_cons.2 ⟨hf, h.lets⟩⟩

lemma of_stack_eq (hs : s'.task.stack = x.task.stack) : Lays L new s s' := ⟨hs.trans h.stack, h.lets⟩

lemma signal {a : Signal → Bool} (ha : L.allows a) : L.allows fun σ => escapes σ (a σ) new := by
  intro σ hσ
  rcases or_of_escapes hσ with hσ | ⟨f, hf, hσ⟩
  · exact ha σ hσ
  · exact (h.lets f hf).free σ hσ

lemma jobs : ∀ f ∈ new, f.isJobEnd = false := fun f hf => (h.lets f hf).job

lemma not_unit {above below : List Frame} {f : Frame} {n : Node} (heq : new = above ++ f :: below) :
    f.unit? ≠ some n := by
  have hf : f ∈ new := by simp [heq]
  rw [(h.lets f hf).unit]
  exact Option.some_ne_none n ∘ Eq.symm

lemma piles (hs : s'.task.stack = x.task.stack) (hc : L.allows (s'.task.control.hasFree ·)) : Piles L new s s' where
  stack := hs.trans h.stack
  signal := h.signal hc
  sealed_ _ _ _ _ heq hunit := absurd hunit (h.not_unit heq)
  jobs := h.jobs

lemma unit {f : Frame} {n : Node} (hs : s'.task.stack = f :: x.task.stack) (hc : s'.task.control = .eval n ctx)
    (hf : f.unit? = some n) : Piles L (f :: new) s s' where
  stack := by rw [hs, h.stack, cons_append]
  signal := by
    have hnone (σ : Signal) (a : Bool) : f.passes σ a = false := by
      cases f with
      | moduleStatement | namespaceBody | default | functionBody =>
        simp [Frame.passes, Frame.hasFree, Frame.takes, Frame.unit?]
      | _ => contradiction
    refine h.signal fun σ hσ => ?_
    rw [hnone] at hσ
    contradiction
  sealed_ := by
    intro above g below n' heq hunit σ hσ
    cases above with
    | nil =>
      cases heq
      obtain rfl := Option.some.inj (hf.symm.trans hunit)
      simpa only [escapes, hc, Control.hasFree] using hσ
    | cons g' above => exact absurd hunit (h.not_unit (List.cons.inj heq).2)
  jobs := by
    refine forall_mem_cons.2 ⟨?_, h.jobs⟩
    cases f with
    | jobEnd => contradiction
    | _ => rfl

lemma finish {c : Completion} (hc : L.completion c) : Piles L new s (x.finish c) := by
  refine h.piles rfl fun σ hσ => ?_
  cases c with
  | value | error => simp [State.finish, Control.hasFree, Completion.signal?] at hσ
  | return_ | break_ | continue_ =>
    obtain rfl := Option.some.inj (of_decide_eq_true hσ)
    exact hc

lemma value {v : Value} : Piles L new s (x.value v) := h.finish trivial

lemma fail {f : Fault} : Piles L new s (x.fail f span ctx) :=
  h.piles rfl fun σ hσ => by simp [State.fail, State.finish, Control.hasFree, Completion.signal?] at hσ

lemma ofResult {r : Result} : Piles L new s (x.finish (.ofResult r)) := by
  cases r with
  | ok v => exact h.value
  | error f =>
    refine h.piles rfl fun σ hσ => ?_
    simp [State.finish, Completion.ofResult, Control.hasFree, Completion.signal?] at hσ

lemma wait {w : Wait} : Piles L new s (x.wait w) := h.piles rfl fun _ hσ => nomatch hσ

lemma enterBody {c : Closure} {inner : Context} : ∃ new, Piles L new s (x.enterBody c inner) := by
  unfold State.enterBody
  dsimp only
  split
  · exact ⟨new, h.fail⟩
  · exact ⟨_, h.unit (f := .functionBody c inner) rfl rfl rfl⟩

lemma drive {id : Nat} {name : String} {span : Span} {ctx : Context} : ∃ new, Piles L new s
    (x.drive id name span ctx) := by
  unfold State.drive
  split
  · rename_i work _
    have hrunning : Lays L new s (x.setCoroutine id .running) := h.of_stack_eq rfl
    have hmemoize := hrunning.push (f := .memoize id) ⟨rfl, rfl, Leeway.allows_none⟩
    cases work with
    | call c inner => exact hmemoize.enterBody
    | receive | background | timer => exact ⟨_, hmemoize.wait⟩
  · exact ⟨new, h.ofResult⟩
  · exact ⟨new, h.fail⟩

lemma readMember : Piles L new s (x.readMember ns name span ctx) := by
  unfold State.readMember
  split
  · exact h.value
  · exact h.fail

lemma namespaceNext {nodes : List Node} : ∃ new, Piles L new s (x.namespaceNext ns name span ctx nodes) := by
  cases nodes with
  | nil => exact ⟨new, h.readMember⟩
  | cons n nodes => exact ⟨_, h.unit (f := .namespaceBody ns n nodes name span ctx) rfl rfl rfl⟩

lemma member {id : Nat} : ∃ new, Piles L new s (x.member (.namespace_ id ns) name span ctx) := by
  rw [member_namespace]
  split
  · exact ⟨new, h.readMember⟩
  · have hstarted : Lays L new s (x.startNamespace id) := h.of_stack_eq rfl
    exact hstarted.namespaceNext

lemma answered {a : Answer} : Piles L new s (x.answered p limit span ctx a) := by
  unfold State.answered
  split
  · exact h.value
  · exact h.value
  · exact h.ofResult
  · exact h.fail
  · exact h.fail

lemma look {until_ : Option Nat} : Piles L new s (x.look p limit until_ span ctx) := by
  have hset {o : Outcome} {watched : Bool} : Lays L new s (x.setOutcome p o watched) :=
    h.of_stack_eq (by cases p <;> rfl)
  unfold State.look
  split
  · exact h.answered
  · split
    · split
      · exact hset.answered
      · exact hset.wait
    · exact hset.answered

end Lays

lemma Prepares.lays (h : s.Prepares L x) : ∃ new, Lays L new s x := by
  induction h with
  | refl => exact ⟨[], .refl⟩
  | share _ _ ih | coroutine _ _ _ ih | cancel _ _ ih | thread _ _ ih | pool _ _ ih | tend _ _ _ _ ih
  | enqueue _ _ _ ih | employ _ _ _ _ _ ih =>
    obtain ⟨new, hnew⟩ := ih
    exact ⟨new, hnew.of_stack_eq rfl⟩
  | push _ hf hfree ih =>
    obtain ⟨new, hnew⟩ := ih
    exact ⟨_, hnew.push (.of_isOrdinary hf hfree)⟩
  | @keep x c _ hc ih =>
    obtain ⟨new, hnew⟩ := ih
    refine ⟨_, hnew.push ⟨rfl, rfl, fun σ hσ => ?_⟩⟩
    cases c with
    | value | error => simp [Frame.hasFree, Completion.signal?] at hσ
    | return_ | break_ | continue_ =>
      obtain rfl := Option.some.inj (of_decide_eq_true hσ)
      exact hc
  | enterModule _ _ ih =>
    obtain ⟨new, hnew⟩ := ih
    exact ⟨_, (hnew.push (f := .leaveModule) ⟨rfl, rfl, Leeway.allows_none⟩).of_stack_eq rfl⟩

lemma Does.piles (h : s.Does L s') : ∃ new, Piles L new s s' := by
  cases h with
  | finish hx hc =>
    obtain ⟨new, hnew⟩ := hx.lays
    exact ⟨new, hnew.finish hc⟩
  | call hx =>
    obtain ⟨new, hnew⟩ := hx.lays
    exact ⟨new, hnew.piles rfl fun _ hσ => nomatch hσ⟩
  | wait hx =>
    obtain ⟨new, hnew⟩ := hx.lays
    exact ⟨new, hnew.wait⟩
  | @eval x f n ctx hx hf hfree hn =>
    obtain ⟨new, hnew⟩ := hx.lays
    have hpush : Lays L (f :: new) s (x.push f) := hnew.push (.of_isOrdinary hf hfree)
    refine ⟨f :: new, hpush.stack, hnew.signal fun σ hσ => ?_, ?_, hpush.jobs⟩
    · rcases Bool.or_eq_true_iff.1 hσ with hσ | hσ
      · exact hfree σ hσ
      · exact hn σ hσ
    · exact fun _ _ _ _ heq hunit => absurd hunit (hpush.not_unit heq)
  | enter hx _ hunit =>
    obtain ⟨new, hnew⟩ := hx.lays
    exact ⟨_, hnew.unit rfl rfl hunit⟩
  | body hx =>
    obtain ⟨new, hnew⟩ := hx.lays
    exact hnew.enterBody

lemma Drives.lays {id : Nat} {name : String} {span : Span} {ctx : Context} (h : s.Drives x id name span ctx) :
    ∃ new, Lays L new s.unwound x := by
  cases h with
  | await hc hs | settle hc hs =>
    rw [unwound_of_done hc hs]
    exact ⟨[], .refl⟩
  | gather hc =>
    rw [unwound_of_not_done (by simp [hc])]
    exact ⟨_, Lays.refl.push ⟨rfl, rfl, Leeway.allows_none⟩⟩
  | next hc hs =>
    rw [unwound_of_done hc hs]
    exact ⟨_, Lays.refl.push ⟨rfl, rfl, Leeway.allows_none⟩⟩
  | @timeout _ limit _ _ _ _ _ _ hc =>
    rw [unwound_of_not_done (by simp [hc])]
    refine ⟨_, (Lays.refl.push (f := .restoreDeadline s.task.deadline) ⟨rfl, rfl, Leeway.allows_none⟩).of_stack_eq rfl⟩

lemma step_piles (hL : L.allows s.emits) (ho : s.task.isOver = false) : (∃ new, s.unwound.Piles L new s.step) ∨
    ∃ c future pool rest, s.task.control = .done c ∧ s.task.stack = .jobEnd future pool :: rest := by
  have hself (hc : ∀ c, s.task.control ≠ .done c) : Lays L [] s.unwound s := by
    rw [unwound_of_not_done hc]
    exact .refl
  have honto {f : Frame} {rest : List Frame} {v : Value} (hc : s.task.control = .done (.value v))
      (hs : s.task.stack = f :: rest) (hf : ∀ s c, unwind s f c = s) : Lays L [] s.unwound (s.onto rest) := by
    rw [unwound_of_done hc hs, hf]
    exact .refl
  have hmoves : s.Moves L s.step := step_moves hL
  generalize s.step = s' at hmoves
  cases hmoves with
  | rest h => exact nomatch h.symm.trans ho
  | act h => exact .inl h.piles
  | drive h =>
    obtain ⟨new, hnew⟩ := h.lays (L := L)
    exact .inl hnew.drive
  | define hc => exact .inl ⟨[], (hself (by simp [hc])).piles rfl fun _ hσ => nomatch hσ⟩
  | access hc hs => exact .inl (honto hc hs fun _ _ => rfl).member
  | proceed hc hs => exact .inl (honto hc hs fun _ _ => rfl).namespaceNext
  | look h =>
    cases h with
    | turn hc | outcome hc => exact .inl ⟨[], (hself (by simp [hc])).look⟩
  | @query p o hc =>
    have hset : Lays L [] s.unwound (s.setOutcome p o.isSettled.2 false) :=
      (hself (by simp [hc])).of_stack_eq (by cases p <;> rfl)
    exact .inl ⟨[], hset.value⟩
  | job hc hs => exact .inr ⟨_, _, _, _, hc, hs⟩

lemma stack_unwind {f : Frame} {c : Completion} : (s.unwind f c).task.stack = s.task.stack := by
  cases f with
  | threadEnd | jobEnd =>
    unfold unwind
    dsimp only
    split <;> rfl
  | _ => rfl

def leeway (s : State) : Leeway := ⟨fun σ => s.emits σ = true⟩

variable {inner base : List Frame}

lemma unwound_above (h : s.task.Above inner base) (hr : s.task.hasReturned base.length = false) :
    ∃ left, s.unwound.task.Above left base ∧
      ∀ σ, escapes σ (s.emits σ) left = true → escapes σ (s.task.control.hasFree σ) inner = true := by
  cases hc : s.task.control with
  | done c =>
    cases inner with
    | nil => simp [Task.hasReturned, hc, h.stack] at hr
    | cons f inner =>
      have hs : s.task.stack = f :: (inner ++ base) := h.stack
      refine ⟨inner, ⟨?_, fun g hg => h.jobs g (.tail _ hg)⟩, fun σ hσ => ?_⟩
      · rw [unwound_of_done hc hs, stack_unwind]
        rfl
      · simp only [emits, hc, hs] at hσ
        exact hσ
  | eval | call | wait =>
    refine ⟨inner, by rwa [unwound_of_not_done (by simp [hc])], fun σ hσ => ?_⟩
    simp only [emits, hc] at hσ
    exact hσ

lemma step_above (h : s.task.Above inner base) (hr : s.task.hasReturned base.length = false) :
    ∃ inner', s.step.task.Above inner' base ∧
      ∀ σ, escapes σ (s.step.task.control.hasFree σ) inner' = true →
      escapes σ (s.task.control.hasFree σ) inner = true := by
  have hover : s.task.isOver = false := by
    by_contra ho
    have ho : s.task.isOver = true := by simpa using ho
    unfold Task.isOver at ho
    split at ho
    · rename_i hc hs
      simp [Task.hasReturned, hc, hs] at hr
    · contradiction
  obtain ⟨left, hleft, hescapes⟩ := unwound_above h hr
  rcases step_piles (L := s.leeway) (fun _ h => h) hover with ⟨new, hnew⟩ | ⟨c, future, pool, rest, hc, hs⟩
  · refine ⟨new ++ left, ⟨?_, ?_⟩, fun σ hσ => hescapes σ ?_⟩
    · rw [hnew.stack, hleft.stack, append_assoc]
    · exact fun f hf => (mem_append.1 hf).elim (hnew.jobs f) (hleft.jobs f)
    · rw [escapes_append] at hσ
      exact escapes_mono (hnew.signal σ) hσ
  · cases inner with
    | nil => simp [Task.hasReturned, hc, h.stack] at hr
    | cons f inner =>
      obtain ⟨rfl, -⟩ := List.cons.inj (hs.symm.trans h.stack)
      exact absurd (h.jobs _ (.head _)) (by simp [Frame.isJobEnd])

def at_ (s : State) (time : Nat) : State := { s with task := { s.task with clock := time } }

def next (s : State) : State := ⟨{ s.step.world with born := [] }, s.step.tick.task⟩

end State

/-- A step that is taken while a task is watched, by the task itself or by another one. -/
structure Moment where
  own : Bool
  state : State

namespace State

variable {base inner : List Frame} {s x y z : State} {ms ms' : List Moment} {f : Frame}

/-- A task comes from one state to another. As long as it takes steps it has not come back to the frames below; other
tasks take steps in between, and other programs are started. -/
inductive Passes (base : List Frame) (s : State) : List Moment → State → Prop
  | here : Passes base s [] s
  | act {ms : List Moment} {x : State} (time : Nat) : Passes base s ms x → x.task.hasReturned base.length = false →
      Passes base s (ms ++ [⟨true, x.at_ time⟩]) (x.at_ time).next
  | other {ms : List Moment} {x y : State} : Passes base s ms x → y.world = x.world →
      Passes base s (ms ++ [⟨false, y⟩]) ⟨{ y.step.world with born := [] }, x.task⟩
  | launch {ms : List Moment} {x : State} {w : World} : Passes base s ms x → w.Agrees x.world →
      Passes base s ms ⟨w, x.task⟩

variable (h : s.Passes base ms x)
include h

lemma Passes.trans (h' : x.Passes base ms' y) : s.Passes base (ms ++ ms') y := by
  induction h' with
  | here => rwa [append_nil]
  | act time _ hr ih =>
    rw [← append_assoc]
    exact .act time ih hr
  | other _ hw ih =>
    rw [← append_assoc]
    exact .other ih hw
  | launch _ hw ih => exact .launch ih hw

theorem Passes.above (hs : s.task.Above inner base) : ∃ inner', x.task.Above inner' base ∧
      ∀ σ, escapes σ (x.task.control.hasFree σ) inner' = true → escapes σ (s.task.control.hasFree σ) inner = true := by
  induction h with
  | here => exact ⟨inner, hs, fun _ h => h⟩
  | @act _ x time _ hr ih =>
    obtain ⟨inner', habove, hescapes⟩ := ih
    obtain ⟨inner'', habove', hescapes'⟩ := step_above (s := x.at_ time) ⟨habove.stack, habove.jobs⟩ hr
    exact ⟨inner'', ⟨habove'.stack, habove'.jobs⟩, fun σ hσ => hescapes σ (hescapes' σ hσ)⟩
  | other _ _ ih | launch _ _ ih => exact ih

theorem Passes.split (hs : s.task.Above inner (f :: base)) (hr : x.task.hasReturned base.length = true) :
    ∃ ms₁ y c ms₂, ms = ms₁ ++ ms₂ ∧ s.Passes (f :: base) ms₁ y ∧ y.task.control = .done c ∧ y.task.stack = f :: base ∧
      y.Passes base ms₂ x := by
  -- A task on its way either is still above all the frames, or it has come back to them.
  have hway : s.Passes (f :: base) ms x ∨ ∃ ms₁ y c ms₂, ms = ms₁ ++ ms₂ ∧ s.Passes (f :: base) ms₁ y ∧
      y.task.control = .done c ∧ y.task.stack = f :: base ∧ y.Passes base ms₂ x := by
    clear hr
    induction h with
    | here => exact .inl .here
    | @act ms x time _ hr ih =>
      rcases ih with hway | ⟨ms₁, y, c, ms₂, rfl, hfirst, hc, hstack, hrest⟩
      · by_cases hback : x.task.hasReturned (f :: base).length = true
        · obtain ⟨inner', habove, -⟩ := hway.above hs
          obtain ⟨c, hc⟩ := Task.exists_done_of_hasReturned hback
          refine .inr ⟨ms, x, c, _, rfl, hway, hc, by rw [habove.stack, habove.eq_nil_of_hasReturned hback]; rfl, ?_⟩
          exact .act time .here hr
        · exact .inl (.act time hway (by simpa using hback))
      · exact .inr ⟨ms₁, y, c, _, append_assoc .., hfirst, hc, hstack, .act time hrest hr⟩
    | other _ hw ih =>
      rcases ih with hway | ⟨ms₁, y, c, ms₂, rfl, hfirst, hc, hstack, hrest⟩
      · exact .inl (.other hway hw)
      · exact .inr ⟨ms₁, y, c, _, append_assoc .., hfirst, hc, hstack, .other hrest hw⟩
    | launch _ hw ih =>
      rcases ih with hway | ⟨ms₁, y, c, ms₂, rfl, hfirst, hc, hstack, hrest⟩
      · exact .inl (.launch hway hw)
      · exact .inr ⟨ms₁, y, c, _, rfl, hfirst, hc, hstack, .launch hrest hw⟩
  rcases hway with hway | hway
  · obtain ⟨inner', ⟨hstack, -⟩, -⟩ := hway.above hs
    cases hc : x.task.control with
    | done c =>
      simp [Task.hasReturned, hc, hstack] at hr
      omega
    | eval | call | wait => simp [Task.hasReturned, hc] at hr
  · exact hway

theorem Passes.first (hs : s.task.hasReturned base.length = false) (hr : x.task.hasReturned base.length = true) :
    ∃ others y time rest, ms = others ++ ⟨true, y.at_ time⟩ :: rest ∧ (∀ m ∈ others, m.own = false) ∧
      s.Passes base others y ∧ y.task = s.task ∧ (y.at_ time).next.Passes base rest x := by
  have hway : (∀ m ∈ ms, m.own = false) ∧ x.task = s.task ∨
      ∃ others y time rest, ms = others ++ ⟨true, y.at_ time⟩ :: rest ∧ (∀ m ∈ others, m.own = false) ∧
        s.Passes base others y ∧ y.task = s.task ∧ (y.at_ time).next.Passes base rest x := by
    clear hr
    induction h with
    | here => exact .inl ⟨forall_mem_nil _, rfl⟩
    | @act ms x time hpassed hr ih =>
      rcases ih with ⟨hothers, htask⟩ | ⟨others, y, time', rest, rfl, hothers, hfirst, htask, hrest⟩
      · exact .inr ⟨ms, x, time, [], rfl, hothers, hpassed, htask, .here⟩
      · exact .inr ⟨others, y, time', _, append_assoc .., hothers, hfirst, htask, .act time hrest hr⟩
    | @other ms x y hpassed hw ih =>
      rcases ih with ⟨hothers, htask⟩ | ⟨others, y', time', rest, rfl, hothers, hfirst, htask, hrest⟩
      · refine .inl ⟨fun m hm => ?_, htask⟩
        rcases mem_append.1 hm with hm | hm
        · exact hothers m hm
        · exact mem_singleton.1 hm ▸ rfl
      · exact .inr ⟨others, y', time', _, append_assoc .., hothers, hfirst, htask, .other hrest hw⟩
    | launch _ hw ih =>
      rcases ih with ⟨hothers, htask⟩ | ⟨others, y', time', rest, rfl, hothers, hfirst, htask, hrest⟩
      · exact .inl ⟨hothers, htask⟩
      · exact .inr ⟨others, y', time', rest, rfl, hothers, hfirst, htask, .launch hrest hw⟩
  rcases hway with ⟨-, htask⟩ | hway
  · rw [htask, hs] at hr
    contradiction
  · exact hway

lemma Passes.of_hasReturned (hs : s.task.hasReturned base.length = true) :
    x.task = s.task ∧ ∀ m ∈ ms, m.own = false := by
  induction h with
  | here => exact ⟨rfl, forall_mem_nil _⟩
  | act time _ hr ih =>
    rw [ih.1, hs] at hr
    contradiction
  | other _ _ ih =>
    refine ⟨ih.1, fun m hm => ?_⟩
    rcases mem_append.1 hm with hm | hm
    · exact ih.2 m hm
    · exact mem_singleton.1 hm ▸ rfl
  | launch _ _ ih => exact ih

lemma Passes.own_above (hs : s.task.Above inner base) :
    ∀ m ∈ ms, m.own = true → m.state.task.hasReturned base.length = false ∧
    ∃ inner, m.state.task.stack = inner ++ base := by
  induction h with
  | here => exact forall_mem_nil _
  | act time hp hr ih =>
    intro m hm hown
    rcases mem_append.1 hm with hm | hm
    · exact ih m hm hown
    · obtain rfl := mem_singleton.1 hm
      obtain ⟨inner', habove, -⟩ := hp.above hs
      exact ⟨hr, inner', habove.stack⟩
  | other _ _ ih =>
    intro m hm hown
    rcases mem_append.1 hm with hm | hm
    · exact ih m hm hown
    · obtain rfl := mem_singleton.1 hm
      contradiction
  | launch _ _ ih => exact ih

end State

namespace Machine

variable {time : Nat} {moves : List Move} {m : Machine} {place place' : Nat} {move : Move} {t : Task}
  {base : List Frame}

def seat? (m : Machine) (place : Nat) : Move → Option Nat
  | .launch _ _ => if place = 0 then none else some place
  | .step q time =>
    match m.tasks[q]? with
    | none => some place
    | some t =>
      if q ≠ 0 ∧ (State.step ⟨m.world, { t with clock := time }⟩).task.isOver then
        if q < place then some (place - 1) else if q = place then none else some place
      else some place

def seatAfter (depth : Nat) (m : Machine) (place : Nat) : List Move → Option Nat
  | [] => some place
  | move :: moves =>
    if m.tasks[place]?.any (Task.hasReturned depth) then none
    else (m.seat? place move).bind fun place => (m.move move).seatAfter depth place moves

lemma seatAfter_append {depth : Nat} (moves later : List Move) :
    m.seatAfter depth place (moves ++ later) =
      (m.seatAfter depth place moves).bind fun q => (m.after moves).seatAfter depth q later := by
  induction moves generalizing m place with
  | nil => rfl
  | cons move moves ih =>
    simp only [cons_append, seatAfter, ih]
    split
    · rfl
    · exact (Option.bind_assoc ..).symm

def moment? (m : Machine) (place : Nat) (move : Move) : Option Moment :=
  match move with
  | .launch _ _ => none
  | .step q _ => (m.mover? move).map (Moment.mk (q = place))

def moments (m : Machine) (place : Nat) : List Move → List Moment
  | [] => []
  | move :: moves =>
    (m.moment? place move).toList ++ ((m.seat? place move).map fun q => (m.move move).moments q moves).getD []

lemma getElem?_launch {source : Source} {program : Module} (h : place ≠ 0) :
    (m.move (.launch source program)).tasks[place]? = m.tasks[place]? := by
  obtain ⟨t, htasks, -⟩ := m.tasks_launch source program
  rw [htasks]
  cases place with
  | zero => contradiction
  | succ place => rfl

lemma getElem?_stepAt {q : Nat} {tq : Task} (hq : m.tasks[q]? = some tq)
    (hs : m.seat? place (.step q time) = some place') (ht : m.tasks[place]? = some t) :
    (m.stepAt q time).tasks[place']? =
      some (if q = place then (State.step ⟨m.world, { tq with clock := time }⟩).tick.task else t) := by
  have hplace : place < m.tasks.length := (List.getElem?_eq_some_iff.1 ht).1
  simp only [seat?, hq] at hs
  rw [tasks_stepAt_eq hq rfl]
  split at hs
  · rename_i hover
    rw [if_pos hover]
    split at hs
    · rename_i hlt
      cases hs
      rw [getElem?_append_left (by rw [length_eraseIdx]; split <;> omega),
        getElem?_eraseIdx_of_ge (by omega), Nat.sub_add_cancel (by omega), if_neg (by omega)]
      exact ht
    · split at hs
      · contradiction
      · rename_i hlt hne
        cases hs
        rw [getElem?_append_left (by rw [length_eraseIdx]; split <;> omega),
          getElem?_eraseIdx_of_lt (by omega), if_neg hne]
        exact ht
  · rename_i hover
    cases hs
    rw [if_neg hover, getElem?_append_left (by rwa [length_set]), getElem?_set]
    split
    · rename_i heq
      exact if_pos (heq ▸ hplace)
    · exact ht

lemma passes_move (ht : m.tasks[place]? = some t) (hs : m.seat? place move = some place')
    (hr : t.hasReturned base.length = false) :
    ∃ t', (m.move move).tasks[place']? = some t' ∧
      State.Passes base ⟨m.world, t⟩ (m.moment? place move).toList ⟨(m.move move).world, t'⟩ := by
  cases move with
  | launch source program =>
    simp only [seat?, Option.ite_none_left_eq_some] at hs
    obtain ⟨hne, hplace⟩ := hs
    cases hplace
    exact ⟨t, (getElem?_launch hne).trans ht, .launch .here (m.agrees_of_launch source program)⟩
  | step q time =>
    cases hq : m.tasks[q]? with
    | none =>
      have heq : m.move (.step q time) = m := by simp only [Machine.move, stepAt, hq]
      simp only [seat?, hq] at hs
      cases hs
      have hnone : m.moment? place (.step q time) = none := by simp [moment?, mover?, hq]
      rw [heq, hnone]
      exact ⟨t, ht, .here⟩
    | some tq =>
      have hmover : m.mover? (.step q time) = some ⟨m.world, { tq with clock := time }⟩ := by simp [mover?, hq]
      have htask := getElem?_stepAt hq hs ht
      simp only [moment?, hmover, Option.map_some, Option.toList_some]
      rw [world_of_mover hmover]
      by_cases heq : q = place
      · obtain rfl : tq = t := Option.some.inj ((heq ▸ hq).symm.trans ht)
        rw [if_pos heq] at htask
        rw [decide_eq_true heq]
        exact ⟨_, htask, .act (x := ⟨m.world, tq⟩) time .here hr⟩
      · rw [if_neg heq] at htask
        rw [decide_eq_false heq]
        exact ⟨t, htask, .other (x := ⟨m.world, t⟩) (y := ⟨m.world, { tq with clock := time }⟩) .here rfl⟩

theorem passes_after (ht : m.tasks[place]? = some t) (hs : m.seatAfter base.length place moves = some place') :
    ∃ t', (m.after moves).tasks[place']? = some t' ∧
      State.Passes base ⟨m.world, t⟩ (m.moments place moves) ⟨(m.after moves).world, t'⟩ := by
  induction moves generalizing m place t with
  | nil =>
    cases hs
    exact ⟨t, ht, .here⟩
  | cons move moves ih =>
    simp only [seatAfter, ht, Option.any_some, Option.ite_none_left_eq_some, Option.bind_eq_some_iff] at hs
    obtain ⟨hr, q, hq, hrest⟩ := hs
    obtain ⟨t', ht', hpasses⟩ := passes_move ht hq (by simpa using hr)
    obtain ⟨t'', ht'', hpasses'⟩ := ih ht' hrest
    refine ⟨t'', ht'', ?_⟩
    rw [moments, hq]
    exact hpasses.trans hpasses'

theorem passes_next {s : State} (hs : m.mover? (.step place time) = some s)
    (hplace : m.seat? place (.step place time) = some place') {q : Nat}
    (hq : (m.move (.step place time)).seatAfter base.length place' moves = some q) :
    ∃ t', (m.after (.step place time :: moves)).tasks[q]? = some t' ∧
      s.next.Passes base ((m.move (.step place time)).moments place' moves)
        ⟨(m.after (.step place time :: moves)).world, t'⟩ := by
  obtain ⟨t, ht, rfl⟩ := Option.map_eq_some_iff.1 hs
  have hfirst := getElem?_stepAt ht hplace ht
  rw [if_pos rfl] at hfirst
  have hnext : State.next ⟨m.world, { t with clock := time }⟩ = ⟨(m.move (.step place time)).world,
      (State.step ⟨m.world, { t with clock := time }⟩).tick.task⟩ := by
    rw [world_of_mover hs]
    rfl
  rw [hnext]
  exact passes_after hfirst hq

end Machine

end ScriptMachine
