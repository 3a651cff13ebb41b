import ScriptMachine.Proofs.Actions.Steps

/-! What a task keeps account of while it works: how deep it is in calls and modules, until when it may go on, and which
frames put that back in order. -/

namespace ScriptMachine

def Frame.isCounted : Frame → Bool
  | .functionBody _ _ | .leaveModule => true
  | _ => false

def Frame.isPlain : Frame → Bool
  | .functionBody _ _ | .leaveModule | .restoreDeadline _ => false
  | _ => true

lemma Frame.isPlain_of_isOrdinary {f : Frame} (h : f.isOrdinary = true) : f.isPlain = true := by
  cases f with
  | functionBody | leaveModule | restoreDeadline => contradiction
  | _ => rfl

lemma Frame.isPlain_of_isEntry {f : Frame} (h : f.isEntry = true) : f.isPlain = true := by
  cases f with
  | functionBody | leaveModule | restoreDeadline => contradiction
  | _ => rfl

structure Task.IsFresh (t : Task) : Prop where
  depth : t.depth = 0
  deadline : t.deadline = none
  stack : ∀ f ∈ t.stack, f.isPlain = true

lemma Task.Reports.isFresh {t : Task} {last : Frame} (h : t.Reports last) (hl : last.isPlain = true) : t.IsFresh := by
  obtain ⟨span, ctx, hstack⟩ := h.stack
  refine ⟨h.depth, h.deadline, ?_⟩
  rw [hstack]
  exact List.forall_mem_cons.2 ⟨rfl, List.forall_mem_singleton.2 hl⟩

inductive State.Deepens (s : State) : State → Prop
  | refl : Deepens s s
  | work {s' : State} (c : Control) : Deepens s s' → Deepens s { s' with task := { s'.task with control := c } }
  | share {s' : State} {w : World} : Deepens s s' → w.settings = s'.world.settings → w.born = s'.world.born →
      Deepens s ⟨w, s'.task⟩
  | spawn {s' : State} {t : Task} : Deepens s s' → t.IsFresh → Deepens s (s'.spawn t)
  | push {s' : State} {f : Frame} : Deepens s s' → f.isPlain = true → Deepens s (s'.push f)
  | enter {s' : State} {f : Frame} : Deepens s s' → f.isCounted = true →
      s'.task.depth < s'.world.settings.maxDepth →
        Deepens s { s' with task := { s'.task with stack := f :: s'.task.stack, depth := s'.task.depth + 1 } }

namespace State.Deepens

variable {p : Producer} {limit : Option Nat} {ns : Namespace} {nodes : List Node} {s₀ s : State} {ctx : Context}
  {span : Span} {name : String} {v : Value} (h : s₀.Deepens s)
include h

lemma finish {c : Completion} : s₀.Deepens (s.finish c) := h.work _

lemma value : s₀.Deepens (s.value v) := h.work _

lemma fail {f : Fault} : s₀.Deepens (s.fail f span ctx) := h.work _

lemma eval {n : Node} : s₀.Deepens (s.eval n ctx) := h.work _

lemma wait {w : Wait} : s₀.Deepens (s.wait w) := h.work _

lemma onTables {α : Type} {f : Tables → α × Tables} : s₀.Deepens (s.onTables f).2 := h.share rfl rfl

lemma assign : s₀.Deepens (s.assign ctx name v) := h.share rfl rfl

lemma setCoroutine {id : Nat} {c : Coroutine} : s₀.Deepens (s.setCoroutine id c) := h.share rfl rfl

lemma setPool {id : Nat} {p : Pool} : s₀.Deepens (s.setPool id p) := h.share rfl rfl

lemma setOutcome {o : Outcome} {watched : Bool} : s₀.Deepens (s.setOutcome p o watched) := by
  cases p with
  | thread | future => exact h.share rfl rfl

lemma enterBody {c : Closure} {inner : Context} : s₀.Deepens (s.enterBody c inner) := by
  unfold State.enterBody
  dsimp only
  split
  · exact h.fail
  · rename_i hdepth
    exact (h.enter (f := .functionBody c inner) rfl (Nat.lt_of_not_le hdepth)).work _

lemma drive {id : Nat} : s₀.Deepens (s.drive id name span ctx) := by
  unfold State.drive
  split
  · rename_i work _
    have hmemoize : s₀.Deepens ((s.setCoroutine id .running).push (.memoize id)) := h.setCoroutine.push rfl
    cases work with
    | call c inner => exact hmemoize.enterBody
    | receive | background | timer => exact hmemoize.wait
  · exact h.finish
  · exact h.fail

lemma answered {a : Answer} : s₀.Deepens (s.answered p limit span ctx a) := by
  unfold State.answered
  split
  · exact h.value
  · exact h.value
  · exact h.finish
  · exact h.fail
  · exact h.fail

lemma look {until_ : Option Nat} : s₀.Deepens (s.look p limit until_ span ctx) := by
  unfold State.look
  split
  · exact h.answered
  · split
    · split
      · exact h.setOutcome.answered
      · exact h.setOutcome.wait
    · exact h.setOutcome.answered

lemma defineNamespace {body : List Node} : s₀.Deepens (s.defineNamespace name body span ctx) := by
  have hnested : s₀.Deepens (s.onTables (Context.nest name ctx (some ctx) span)).2 := h.onTables
  have hcounted : s₀.Deepens { (s.onTables (Context.nest name ctx (some ctx) span)).2 with
      world := { (s.onTables (Context.nest name ctx (some ctx) span)).2.world with
        namespaces := s.world.namespaces.push false } } := hnested.share rfl rfl
  exact hcounted.assign.value

lemma readMember : s₀.Deepens (s.readMember ns name span ctx) := by
  unfold State.readMember
  split
  · exact h.value
  · exact h.fail

lemma namespaceNext : s₀.Deepens (s.namespaceNext ns name span ctx nodes) := by
  cases nodes with
  | nil => exact h.readMember
  | cons n nodes => exact (h.push (f := .namespaceBody ns n nodes name span ctx) rfl).eval

lemma member : s₀.Deepens (s.member v name span ctx) := by
  unfold State.member
  split
  · rename_i id ns
    split
    · exact h.readMember
    · have hstarted : s₀.Deepens { s with world := { s.world with
          namespaces := s.world.namespaces.setIfInBounds id true } } := h.share rfl rfl
      exact hstarted.namespaceNext
  · exact h.fail

lemma runStatements : s₀.Deepens (s.runStatements ctx v nodes) := by
  cases nodes with
  | nil => exact h.value
  | cons n nodes => exact (h.push (f := .moduleStatement n nodes ctx) rfl).eval

end State.Deepens

namespace State

variable {L : Leeway} {s s' : State} {f : Frame} {rest : List Frame} {c : Completion}

lemma Prepares.deepens (h : s.Prepares L s') : s.Deepens s' := by
  induction h with
  | refl => exact .refl
  | share _ hw ih => exact ih.share hw.settings hw.born
  | coroutine name work _ ih | cancel number _ ih | pool _ _ ih => exact ih.share rfl rfl
  | @thread x t _ ht ih =>
    have hgrown : s.Deepens x.addThread := ih.share rfl rfl
    exact hgrown.spawn (ht.isFresh rfl)
  | tend p' _ _ _ ih => exact ih.setPool
  | @enqueue x id p job _ _ _ ih =>
    have hgrown : s.Deepens x.addFuture := ih.share rfl rfl
    exact hgrown.setPool
  | @employ x id p t p' _ _ _ ht ih =>
    have hgrown : s.Deepens x.addFuture := ih.share rfl rfl
    exact hgrown.setPool.spawn (ht.isFresh rfl)
  | push _ hf _ ih => exact ih.push (Frame.isPlain_of_isOrdinary hf)
  | keep _ _ ih => exact ih.push rfl
  | enterModule _ hdepth ih => exact ih.enter (f := .leaveModule) rfl hdepth

lemma Does.deepens (h : s.Does L s') : s.Deepens s' := by
  cases h with
  | finish hx _ => exact hx.deepens.finish
  | call hx => exact hx.deepens.work _
  | wait hx => exact hx.deepens.wait
  | eval hx hf _ _ => exact (hx.deepens.push (Frame.isPlain_of_isOrdinary hf)).eval
  | enter hx hf _ => exact (hx.deepens.push (Frame.isPlain_of_isEntry hf)).eval
  | body hx => exact hx.deepens.enterBody

lemma callTask_isFresh {callee : Value} {args : List Value} {kwargs : Dict Value} {span : Span} {ctx : Context}
    {last : Frame} {thread : Option Nat} (hl : last.isPlain = true) :
    (s.callTask callee args kwargs span ctx last thread).IsFresh := callTask_reports.isFresh hl

def timeLimit? (s : State) : Option Nat :=
  match s.task.control with
  | .call (.builtin .timeout) args kwargs span ctx =>
    match Builtin.timeout.bind args kwargs with
    | .error _ => none
    | .ok bound =>
      match Invocation.coroutine ⟨.timeout, bound, span, ctx⟩ 0, Invocation.seconds ⟨.timeout, bound, span, ctx⟩ 1 with
      | .ok _, .ok limit => some limit
      | _, _ => none
  | _ => none

lemma step_of_timeLimit? {limit : Nat} (h : s.timeLimit? = some limit) :
    ∃ id name span ctx, s.step = (s.withDeadline limit).drive id name span ctx := by
  unfold timeLimit? at h
  split at h
  · rename_i args kwargs span ctx hc
    split at h
    · contradiction
    · rename_i bound hbound
      split at h
      · rename_i member limit' hmember hlimit
        cases h
        refine ⟨member.1, member.2, span, ctx, ?_⟩
        simp only [step, hc, enterCall, callBuiltin, hbound, perform, State.timeout, hmember, hlimit]
        rfl
      · contradiction
  · contradiction

lemma step_cases : s.timeLimit? = none ∧ s.unwound.Deepens s.step ∨
    (∃ limit, s.timeLimit? = some limit ∧ (s.withDeadline limit).Deepens s.step) ∨
      ∃ c future pool rest, s.task.control = .done c ∧ s.task.stack = .jobEnd future pool :: rest ∧
        s.step = s.unwound.nextJob pool := by
  cases hlimit : s.timeLimit? with
  | some limit =>
    obtain ⟨id, name, span, ctx, hstep⟩ := step_of_timeLimit? hlimit
    exact .inr (.inl ⟨limit, rfl, hstep ▸ Deepens.refl.drive⟩)
  | none =>
    have hself (hc : ∀ c, s.task.control ≠ .done c) : s.unwound.Deepens s := by
      rw [unwound_of_not_done hc]
      exact .refl
    have honto {f : Frame} {rest : List Frame} {v : Value} (hc : s.task.control = .done (.value v))
        (hs : s.task.stack = f :: rest) (hf : ∀ s c, unwind s f c = s) : s.unwound.Deepens (s.onto rest) := by
      rw [unwound_of_done hc hs, hf]
      exact .refl
    have hmoves : s.Moves .any s.step := step_moves fun _ _ => trivial
    generalize s.step = s' at hmoves
    cases hmoves with
    | rest h => exact .inl ⟨rfl, by rw [unwound_of_isOver h]; exact .refl⟩
    | act h => exact .inl ⟨rfl, h.deepens⟩
    | drive h =>
      refine .inl ⟨rfl, Deepens.drive ?_⟩
      cases h with
      | await hc hs | settle hc hs => exact honto hc hs fun _ _ => rfl
      | gather hc => exact (hself (by simp [hc])).push rfl
      | next hc hs => exact (honto hc hs fun _ _ => rfl).push rfl
      | timeout hc hbound hmember hseconds => simp [timeLimit?, hc, hbound, hmember, hseconds] at hlimit
    | define hc => exact .inl ⟨rfl, (hself (by simp [hc])).defineNamespace⟩
    | access hc hs => exact .inl ⟨rfl, (honto hc hs fun _ _ => rfl).member⟩
    | proceed hc hs => exact .inl ⟨rfl, (honto hc hs fun _ _ => rfl).namespaceNext⟩
    | look h =>
      cases h with
      | turn hc | outcome hc => exact .inl ⟨rfl, (hself (by simp [hc])).look⟩
    | query hc => exact .inl ⟨rfl, (hself (by simp [hc])).setOutcome.value⟩
    | job hc hs => exact .inr (.inr ⟨_, _, _, _, hc, hs, rfl⟩)

end State

end ScriptMachine
