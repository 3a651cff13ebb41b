import ScriptMachine.Proofs.Locations
import ScriptMachine.Proofs.Passages

/-! Signals are contained. A tree ends with a signal only if one occurs free in it, so in programs whose loops contain
all their signals, no fault of a stray signal is ever raised. -/

namespace ScriptMachine

open List

variable {n : Node}

namespace Node

def isEnclosed (n : Node) : Bool := !n.hasFree .break_ && !n.hasFree .continue_

/-- The code in a tree that runs as a whole of its own: the body and the defaults of a function, and the statements of
a namespace. -/
def units : Node → List Node
  | function _ params body _ _ _ _ => body :: params.filterMap Param.default?
  | namespace_ _ body _ => body
  | _ => []

def isContained (n : Node) : Bool := n.subtrees.all fun k => k.units.all isEnclosed

end Node

/-- Each `break` and `continue` is in the body of a loop of the same function, default, namespace or module. -/
def Module.isContained (m : Module) : Bool := m.statements.all fun n => n.isEnclosed && n.isContained

def State.loading? (s : State) : Option Module :=
  match s.task.control with
  | .eval (.load path kind _) ctx => (s.findModule path kind ctx).toOption.map Prod.snd
  | _ => none

def Machine.opened? (m : Machine) (move : Move) : Option Module :=
  match move with
  | .launch _ program => some program
  | .step _ _ => (m.mover? move).bind State.loading?

def Machine.modules (m : Machine) : List Move → List Module
  | [] => []
  | move :: moves => (m.opened? move).toList ++ (m.move move).modules moves

def State.Quiet (s : State) : Prop :=
  ∀ c f rest, s.task.control = .done c → s.task.stack = f :: rest → f.unit?.isSome = true → c.stray? = none

def Node.IsUnit (n : Node) : Prop := n.isEnclosed = true ∧ n.isContained = true

def containment : Policy where
  closure c := ∀ n ∈ c.routine.body :: c.routine.params.filterMap Param.default?, n.IsUnit
  space _ ns := ∀ n ∈ ns.body, n.IsUnit
  deferred c _ := c.routine.body.IsUnit
  place _ _ := True
  failure f := f.fault.isStray = false
  code n _ := n.isContained = true
  unit n _ := n.IsUnit
  binds _ _ := True
  tables _ := True
  sees s := (∀ m ∈ s.loading?, m.isContained = true) ∧ s.Quiet

lemma Node.isContained_mono {k : Node} (h : n.isContained = true) (hk : k.subtrees ⊆ n.subtrees) :
    k.isContained = true := all_eq_true.2 fun x hx => all_eq_true.1 h x (hk hx)

lemma Node.isUnit_of_units {k : Node} (h : n.isContained = true) (hk : k ∈ n.units) : k.IsUnit := by
  have hclosed := all_eq_true.1 h n n.mem_subtrees_self
  refine ⟨all_eq_true.1 hclosed k hk, isContained_mono h fun x hx => mem_cons_of_mem _ ?_⟩
  have hchild : k ∈ n.children := by
    cases n with
    | function name params body autoReturn isAsync decorators span =>
      rcases mem_cons.1 hk with rfl | hk
      · exact mem_cons_self ..
      · exact mem_cons_of_mem _ (mem_append_left _ hk)
    | namespace_ name body span => exact hk
    | _ => contradiction
  exact mem_within.2 ⟨k, hchild, hx⟩

lemma Module.isUnit_of_isContained {m : Module} (h : m.isContained = true) : ∀ n ∈ m.statements, n.IsUnit :=
  fun n hn => Bool.and_eq_true_iff.1 (all_eq_true.1 h n hn)

lemma containment_lawful : containment.Lawful where
  run h := h.2
  part h hm := Node.isContained_mono h (subtrees_subset_of_parts hm)
  target _ _ := trivial
  span _ := trivial
  failure _ := rfl
  stray hs hc hstack hunit hstray _ := absurd (hstray.symm.trans (hs.2 _ _ _ hc hstack hunit)) (by simp)
  function h := fun _ hk => Node.isUnit_of_units h hk
  default h hnode := h _ (mem_cons_of_mem _ (Param.default?_of_optional hnode))
  enter h _ _ := ⟨trivial, h, h _ (mem_cons_self ..), fun _ _ => trivial, fun _ => h _ (mem_cons_self ..)⟩
  drive h := h
  assign _ _ := trivial
  remove _ _ := trivial
  declare _ _ _ _ := trivial
  define _ _ h _ := ⟨trivial, fun _ hk => Node.isUnit_of_units h hk⟩
  member h := h
  load {s path kind span ctx source m} hs hc _ hfound _ := by
    have hloading : s.loading? = some m := by simp only [State.loading?, hc, hfound]; rfl
    exact ⟨trivial, Module.isUnit_of_isContained (hs.1 m hloading)⟩

namespace State

variable {s : State}

lemma sealed_unwound (h : Sealed s.task.control s.task.stack) {above below : List Frame} {f : Frame}
    (hstack : s.unwound.task.stack = above ++ f :: below) (hunit : f.unit? = some n) (ho : s.task.isOver = false)
    {σ : Signal} (hσ : escapes σ (s.emits σ) above = true) : n.hasFree σ = true := by
  cases hc : s.task.control with
  | done c =>
    cases hs : s.task.stack with
    | nil => simp [Task.isOver, hc, hs] at ho
    | cons g rest =>
      rw [unwound_of_done hc hs, stack_unwind] at hstack
      simp only [emits, hc, hs] at hσ
      rw [hc, hs] at h
      exact h (g :: above) f below n (congrArg (g :: ·) hstack) hunit σ hσ
  | eval | call | wait =>
    rw [unwound_of_not_done (by simp [hc])] at hstack
    simp only [emits, hc] at hσ
    rw [hc] at h
    exact h above f below n hstack hunit σ hσ

lemma sealed_step (h : Sealed s.task.control s.task.stack) : Sealed s.step.task.control s.step.task.stack := by
  by_cases ho : s.task.isOver = true
  · rwa [step_of_isOver ho]
  have ho : s.task.isOver = false := by simpa using ho
  rcases step_piles (L := s.leeway) (fun _ h => h) ho with ⟨new, hnew⟩ | ⟨c, future, pool, rest, hc, hs⟩
  · intro above f below n heq hunit σ hσ
    rw [hnew.stack] at heq
    have hbelow (above' : List Frame) (habove : above = new ++ above')
        (hleft : s.unwound.task.stack = above' ++ f :: below) : n.hasFree σ = true := by
      refine sealed_unwound h hleft hunit ho (escapes_mono (hnew.signal σ) ?_)
      rwa [← escapes_append, ← habove]
    rcases append_eq_append_iff.1 heq with ⟨above', habove, hleft⟩ | ⟨middle, habove, hrest⟩
    · exact hbelow _ habove hleft
    · cases middle with
      | nil => exact hbelow [] (by simpa using habove.symm) hrest.symm
      | cons g middle =>
        cases hrest
        exact hnew.sealed_ above _ middle n habove hunit σ hσ
  · have hstep : s.step = ((s.onto rest).unwind (.jobEnd future pool) c).nextJob pool := step_of_done hc hs
    rw [hstep]
    unfold nextJob
    have hidle {x : State} (hx : x.task.stack = rest) : Sealed (x.value .nil).task.control
      (x.value .nil).task.stack := by
      intro above f below n heq hunit σ hσ
      refine h (.jobEnd future pool :: above) f below n ?_ hunit σ ?_
      · rw [hs, cons_append, ← heq]
        exact congrArg _ hx.symm
      · have hnone (a : Bool) : Frame.passes σ (.jobEnd future pool) a = false := by
          simp [Frame.passes, Frame.hasFree, Frame.takes]
        rwa [escapes, hnone]
    split
    · split
      · intro above f below n heq hunit
        have hf : f ∈ [Frame.settle _ _, Frame.jobEnd _ pool] := heq ▸ mem_append_right _ (.head _)
        simp only [mem_cons, not_mem_nil, or_false] at hf
        rcases hf with rfl | rfl <;> contradiction
      · exact hidle stack_unwind
    · exact hidle stack_unwind

end State

lemma Task.sealed_of_starting {C : Contents} {t : Task} (h : C.starting t) : Sealed t.control t.stack := by
  obtain ⟨callee, args, kwargs, span, ctx, last, -, hstack, -, -, -, hlast⟩ := h
  intro above f below n heq hunit
  have hf : f ∈ t.stack := by simp [heq]
  rw [hstack] at hf
  rcases mem_cons.1 hf with rfl | hf
  · contradiction
  · obtain rfl := mem_singleton.1 hf
    rcases hlast with ⟨_, rfl⟩ | ⟨_, _, rfl⟩ <;> contradiction

lemma steady_sealed :
    Machine.Steady containment.shared (fun t => containment.task [] t ∧ Sealed t.control t.stack) where
  born hw t ht := ⟨Policy.steady.born hw t ht, Task.sealed_of_starting (hw.1.born t ht)⟩
  adopt hw := Policy.steady.adopt hw
  clock _ ht := ht

lemma isEnclosed_of_unit {t : Task} {f : Frame} (ht : containment.task [] t) (hf : f ∈ t.stack)
    (hunit : f.unit? = some n) : n.isEnclosed = true := by
  obtain ⟨frames, hstack, hframes⟩ := ht.1
  rw [append_nil] at hstack
  rcases hframes f (hstack ▸ hf) with hframe | ⟨-, future, pool, rfl⟩
  · cases f with
    | moduleStatement current rest ctx =>
      obtain rfl := Option.some.inj hunit
      exact (hframe current (.head _)).1
    | namespaceBody ns current rest name span ctx =>
      obtain rfl := Option.some.inj hunit
      exact (hframe.2.1 current (.head _)).1
    | default closure inner name node rest =>
      cases hunit
      exact hframe.2.1.1
    | functionBody closure inner =>
      cases hunit
      exact hframe.1
    | _ => contradiction
  · contradiction

lemma State.quiet_of_sealed {s : State} (ht : containment.task [] s.task) (h : Sealed s.task.control s.task.stack) :
    s.Quiet := by
  intro c f rest hcontrol hstack hunit
  -- The signal is free in the code of the unit, which lets none out.
  obtain ⟨n, hn⟩ := Option.isSome_iff_exists.1 hunit
  have henclosed := isEnclosed_of_unit ht (hstack ▸ .head _) hn
  have hsealed := h [] f rest n hstack hn
  simp only [escapes, hcontrol, Control.hasFree, decide_eq_true_eq] at hsealed
  simp only [Node.isEnclosed, Bool.and_eq_true, Bool.not_eq_true'] at henclosed
  cases c with
  | break_ => exact absurd ((hsealed .break_ rfl).symm.trans henclosed.1) (by simp)
  | continue_ => exact absurd ((hsealed .continue_ rfl).symm.trans henclosed.2) (by simp)
  | value | error | return_ => rfl

namespace Machine

variable {m : Machine} {move : Move} {settings : Settings} {argv : List String} {files : FileTree} {input : List UInt8}

lemma sealed_launch (source : Source) (program : Module) (h : ∀ t ∈ m.tasks, Sealed t.control t.stack) :
    ∀ t ∈ (m.move (.launch source program)).tasks, Sealed t.control t.stack := by
  obtain ⟨t, htasks, hfirst⟩ := m.tasks_launch source program
  rw [htasks]
  refine forall_mem_cons.2 ⟨fun above f below n heq hunit σ hσ => ?_, fun t' ht' => h t' (.tail _ ht')⟩
  rcases hfirst with ⟨hstack, v, hcontrol⟩ | ⟨statement, rest, ctx, hstack, hcontrol⟩
  · simp [hstack] at heq
  · rw [hstack, singleton_eq_append_iff] at heq
    rcases heq with ⟨rfl, hcons⟩ | ⟨-, hcons⟩
    · cases hcons
      cases hunit
      simpa only [escapes, hcontrol, Control.hasFree] using hσ
    · contradiction

def Calm (m : Machine) : Prop :=
  m.Holds containment.shared (fun t => containment.task [] t ∧ Sealed t.control t.stack)

lemma Calm.policy (h : m.Calm) : m.Holds containment.shared (containment.task []) := ⟨h.1, fun t ht => (h.2 t ht).1⟩

lemma calm_boot : (boot settings argv files input).Calm := by
  have hboot : (boot settings argv files input).Holds containment.shared (containment.task []) := holds_boot trivial
  refine ⟨hboot.1, fun t ht => ⟨hboot.2 t ht, ?_⟩⟩
  obtain rfl := mem_singleton.1 ht
  exact fun above f below n heq => absurd heq.symm (append_ne_nil_of_right_ne_nil above (cons_ne_nil f below))

lemma Calm.moved (h : m.Calm) (hp : ∀ program ∈ m.opened? move, program.isContained = true) : (m.move move).Calm := by
  cases move with
  | launch source program =>
    have hunits : ∀ n ∈ program.statements, n.IsUnit := Module.isUnit_of_isContained (hp program rfl)
    have hlaunched : (m.move (.launch source program)).Holds containment.shared (containment.task []) :=
      Policy.holds_launch containment_lawful ⟨h.1, fun t ht => h.policy.2 t (.tail _ ht)⟩ trivial hunits
    have hsealed := sealed_launch source program fun t ht => (h.2 t ht).2
    exact ⟨hlaunched.1, fun t ht => ⟨hlaunched.2 t ht, hsealed t ht⟩⟩
  | step place time =>
    refine Holds.stepAt_of steady_sealed h place time fun t ht => ?_
    obtain ⟨hallowed, hsealed⟩ := steady_sealed.clock time (h.2 t (mem_of_getElem? ht))
    have hmover : m.mover? (.step place time) = some ⟨m.world, { t with clock := time }⟩ := by simp [mover?, ht]
    have hsees : containment.sees ⟨m.world, { t with clock := time }⟩ :=
      ⟨fun program hprogram => hp program (by rwa [opened?, hmover, Option.bind_some]),
        State.quiet_of_sealed hallowed hsealed⟩
    obtain ⟨hworld, htask⟩ := containment_lawful.step hsees h.1 hallowed
    exact ⟨hworld, htask, State.sealed_step hsealed⟩

theorem Calm.after {moves : List Move} (h : m.Calm) (hp : ∀ program ∈ m.modules moves, program.isContained = true) :
    (m.after moves).Calm := by
  induction moves generalizing m with
  | nil => exact h
  | cons move moves ih =>
    refine ih (h.moved fun program hprogram => hp program ?_) fun program hprogram => hp program ?_
    · exact mem_append_left _ (Option.mem_toList.2 hprogram)
    · exact mem_append_right _ hprogram

end Machine

/-- A tree that is evaluated ends with a signal only if the signal occurs free in it, whatever its context and the
state, and whatever other tasks do in the meantime. So a program in which each `break` and `continue` is in the body of
a loop of the same function, default, namespace or module never meets a stray one. -/
theorem signals_contained :
    (∀ (s x : State) (n : Node) (ctx : Context) (ms : List Moment) (c : Completion) (σ : Signal),
      s.task.control = .eval n ctx → s.Passes s.task.stack ms x → x.task.stack = s.task.stack →
        x.task.control = .done c → c.signal? = some σ → n.hasFree σ = true) ∧
    ∀ (settings : Settings) (argv : List String) (files : FileTree) (input : List UInt8) (moves : List Move),
      (∀ program ∈ (Machine.boot settings argv files input).modules moves, program.isContained = true) →
        ∀ f, ((Machine.boot settings argv files input).after moves).Bears f →
          f.fault ≠ .strayBreak ∧ f.fault ≠ .strayContinue := by
  refine ⟨fun s x n ctx ms c σ hs hpasses hstack hc hsignal => ?_, fun settings argv files input moves hp f hf => ?_⟩
  · obtain ⟨inner, habove, hescapes⟩ := hpasses.above ⟨(nil_append _).symm, forall_mem_nil _⟩
    have hnil : inner = [] := by simpa using habove.stack.symm.trans hstack
    subst hnil
    have hfree := hescapes σ (by simp [escapes, hc, Control.hasFree, hsignal])
    simpa only [escapes, hs, Control.hasFree] using hfree
  · have hstray : f.fault.isStray = false := (Machine.calm_boot.after hp).policy.failure hf
    refine ⟨fun heq => ?_, fun heq => ?_⟩
    · rw [heq] at hstray
      contradiction
    · rw [heq] at hstray
      contradiction

def enclosedLoops : Module := .ofTexts ["while true do break", "defun f(n)
for i = 0 to n do
continue
done
return i
done", "namespace ns
for i in [1] do
break
done
done", "f(2)", "ns.x"]

def enclosedLoopsMoves : List Move := .launch ⟨"", ""⟩ enclosedLoops :: replicate 50 (.step 0 0)

def interruptedBlock : Node := .block [.int 1 (.point 0), .break_ (.point 0)] (.point 0)

def State.about (n : Node) : State :=
  ⟨(Session.start ⟨⟨""⟩, 10⟩ [] ⟨[], [], []⟩ []).world,
    { control := .eval n ((Session.start ⟨⟨""⟩, 10⟩ [] ⟨[], [], []⟩ []).entry ⟨"", ""⟩).1, stack := [], clock := 0 }⟩

theorem interrupted_block_and_enclosed_loops :
    (∃ ms x, (State.about interruptedBlock).Passes [] ms x ∧ x.task.stack = [] ∧ x.task.control = .done .break_ ∧
      interruptedBlock.hasFree .break_ = true) ∧
    (∀ program ∈ (Machine.boot ⟨⟨""⟩, 10⟩ [] ⟨[], [], []⟩ []).modules enclosedLoopsMoves, program.isContained = true) ∧
      ∃ f, ((Machine.boot ⟨⟨""⟩, 10⟩ [] ⟨[], [], []⟩ []).after enclosedLoopsMoves).Bears f ∧
        f.fault ≠ .strayBreak ∧ f.fault ≠ .strayContinue := by
  obtain ⟨hnode, hprogram⟩ := signals_contained
  obtain ⟨ms, x, hpasses, hstack, hbreak⟩ : ∃ ms x, (State.about interruptedBlock).Passes [] ms x ∧
      x.task.stack = [] ∧ x.task.control = .done .break_ :=
    ⟨_, _, .act 0 (.act 0 (.act 0 (.act 0 (.act 0 .here rfl) rfl) rfl) rfl) rfl, rfl, rfl⟩
  have hmodules : ((Machine.boot ⟨⟨""⟩, 10⟩ [] ⟨[], [], []⟩ []).modules enclosedLoopsMoves).all Module.isContained =
      true := by
    decide +kernel
  have hfailed : ((Machine.boot ⟨⟨""⟩, 10⟩ [] ⟨[], [], []⟩ []).after enclosedLoopsMoves).main.failure?.isSome =
    true := by
    decide +kernel
  have hfree : interruptedBlock.hasFree .break_ = true :=
    hnode (.about interruptedBlock) x _ _ ms _ _ rfl hpasses hstack hbreak rfl
  refine ⟨⟨ms, x, hpasses, hstack, hbreak, hfree⟩, all_eq_true.1 hmodules, ?_⟩
  obtain ⟨f, hfailure⟩ := Option.isSome_iff_exists.1 hfailed
  have hbears := Machine.bears_of_failure? hfailure
  exact ⟨f, hbears, hprogram _ _ _ _ _ (all_eq_true.1 hmodules) f hbears⟩

end ScriptMachine
