import ScriptMachine.Proofs.Untraced.Erasure

/-! Calls and coroutines without places: what a function of the program does depends on who calls it in its places
only. -/

namespace ScriptMachine

namespace Erasure

variable {e : Erasure} {s s' : State}

lemma state_of_eq (h : s' = e.state s) : e.state s' = e.state s := by rw [h, state_state]

section next

variable {ctx ctx' : Context} {span span' : Span} (hs : e.state s' = e.state s)
include hs

lemma state_push {f f' : Frame} (hf : e.frame f' = e.frame f) : e.state (s'.push f') = e.state (s.push f) := by
  have hpush (s : State) (f : Frame) : e.state (s.push f) = (e.state s).push (e.frame f) := rfl
  rw [hpush, hpush, hs, hf]

lemma state_finish {c c' : Completion} (hc : c'.untraced = c.untraced) : e.state (s'.finish c') = e.state
    (s.finish c) := by
  have hfinish (s : State) (c : Completion) : e.state (s.finish c) = (e.state s).finish c.untraced := rfl
  rw [hfinish, hfinish, hs, hc]

lemma state_value {v v' : Value} (hv : v'.untraced = v.untraced) : e.state (s'.value v') = e.state (s.value v) :=
  state_finish hs (congrArg Completion.value hv)

lemma state_fail {f : Fault} : e.state (s'.fail f span' ctx') = e.state (s.fail f span ctx) := state_finish hs rfl

lemma state_eval {n n' : Node} (hn : n'.unplaced = n.unplaced) (hc : ctx'.untraced = ctx.untraced) :
    e.state (s'.eval n' ctx') = e.state (s.eval n ctx) := by
  have heval (s : State) (n : Node) (ctx : Context) :
    e.state (s.eval n ctx) = (e.state s).eval n.unplaced ctx.untraced :=
    rfl
  rw [heval, heval, hs, hn, hc]

lemma state_wait {w w' : Wait} (hw : e.wait w' = e.wait w) : e.state (s'.wait w') = e.state (s.wait w) := by
  have hwait (s : State) (w : Wait) : e.state (s.wait w) = (e.state s).wait (e.wait w) := rfl
  rw [hwait, hwait, hs, hw]

lemma state_call {callee callee' : Value} {args args' : List Value} {kwargs kwargs' : Dict Value}
    (hv : callee'.untraced = callee.untraced) (ha : untracedValues args' = untracedValues args)
    (hk : untracedDict kwargs' = untracedDict kwargs) (hp : e.place ctx' = e.place ctx) :
    e.state (s'.call callee' args' kwargs' span' ctx') = e.state (s.call callee args kwargs span ctx) := by
  have hcall (s : State) (callee : Value) (args : List Value) (kwargs : Dict Value) (span : Span) (ctx : Context) :
      e.state (s.call callee args kwargs span ctx) = (e.state s).call callee.untraced (untracedValues args)
        (untracedDict kwargs) (.point 0) (e.callPlace callee.untraced ctx) := by
    rw [callPlace_untraced]
    rfl
  rw [hcall, hcall, hs, hv, ha, hk, callPlace_of_place hp]

end next

lemma fails {f : Fault} {ctx ctx' : Context} {span span' : Span} :
    e.state ((e.state s).fail f span' ctx') = e.state (s.fail f span ctx) := state_fail (e.state_state s)

lemma gives {v v' : Value} (hv : v'.untraced = v.untraced) : e.state ((e.state s).value v') = e.state (s.value v) :=
  state_value (e.state_state s) hv

section world

variable {ctx : Context} {name : String} {v : Value}

@[simp] lemma heap_state : (e.state s).world.heap = s.world.heap.untraced := rfl

@[simp] lemma tables_state : (e.state s).world.tables = s.world.tables.untraced := rfl

@[simp] lemma after_state : (e.state s).after = s.after := rfl

@[simp] lemma isCancelled_state : (e.state s).isCancelled = s.isCancelled := by
  have hthread : (e.state s).task.thread = s.task.thread := rfl
  have hthreads : (e.state s).world.threads = s.world.threads.map thread := rfl
  simp only [State.isCancelled, hthread, hthreads, Array.getElem?_map, Option.map_map]
  rfl

@[simp] lemma interruption?_state : (e.state s).interruption? = s.interruption? := by
  unfold State.interruption?
  rw [isCancelled_state]
  rfl

lemma lookup_state : (e.state s).lookup ctx.untraced name = (s.lookup ctx name).map Value.untraced :=
  Context.lookup_untraced

lemma assign_state : (e.state s).assign ctx.untraced name v.untraced = e.state (s.assign ctx name v) :=
  congrArg (e.state s).setTables Context.assign_untraced

lemma setCoroutine_state {id : Nat} {c : Coroutine} :
    (e.state s).setCoroutine id (e.coroutine c) = e.state (s.setCoroutine id c) := by
  simp [State.setCoroutine, state, world]

lemma newCoroutine_state {w : Work} :
    (e.state s).newCoroutine name (e.work w) = ((s.newCoroutine name w).1, e.state (s.newCoroutine name w).2) := by
  simp [State.newCoroutine, state, world, coroutine]

end world

section calls

variable {ctx ctx' inner inner' : Context} {span span' : Span} {closure : Closure} {rest : List (Param × Option Value)}

lemma Param.name_unplaced (p : Param) : p.unplaced.name = p.name := by cases p <;> rfl

lemma Param.slot_unplaced (p : Param) : p.unplaced.slot = p.slot := by cases p <;> rfl

lemma state_enterBody :
    e.state ((e.state s).enterBody closure.untraced inner.untraced) = e.state (s.enterBody closure inner) := by
  by_cases hd : s.world.settings.maxDepth ≤ s.task.depth
  · have hd' : (e.state s).world.settings.maxDepth ≤ (e.state s).task.depth := hd
    simp only [State.enterBody, if_pos hd, if_pos hd']
    exact fails
  · have hd' : ¬(e.state s).world.settings.maxDepth ≤ (e.state s).task.depth := hd
    simp only [State.enterBody, if_neg hd, if_neg hd']
    exact state_of_eq rfl

lemma state_bindParams : e.state ((e.state s).bindParams closure.untraced inner.untraced (untracedBound rest)) =
    e.state (s.bindParams closure inner rest) := by
  have hassign {s : State} {name : String} {v : Value} {rest : List (Param × Option Value)}
      (ih : ∀ {s : State}, e.state ((e.state s).bindParams closure.untraced inner.untraced (untracedBound rest)) =
        e.state (s.bindParams closure inner rest)) :
      e.state (((e.state s).assign inner.untraced name v.untraced).bindParams closure.untraced inner.untraced
        (untracedBound rest)) = e.state ((s.assign inner name v).bindParams closure inner rest) := by
    rw [assign_state]
    exact ih
  induction rest generalizing s with
  | nil =>
    have hasync : closure.untraced.routine.isAsync = closure.routine.isAsync := rfl
    have hnew : (e.state s).newCoroutine closure.untraced.name (.call closure.untraced inner.untraced) = _ :=
      newCoroutine_state (w := .call closure inner)
    simp only [untracedBound, List.map_nil, State.bindParams, hasync, hnew]
    cases closure.routine.isAsync with
    | true => exact state_of_eq rfl
    | false => exact state_enterBody
  | cons b rest ih =>
    obtain ⟨param, value⟩ := b
    cases value with
    | some v =>
      simp only [untracedBound, List.map_cons, Option.map_some, State.bindParams, Param.name_unplaced]
      exact hassign ih
    | none => cases param with
      | optional name node => exact state_of_eq rfl
      | required | rest | keywords => exact hassign (v := .nil) ih

lemma state_bindParams_of_inner (hi : inner'.untraced = inner.untraced) :
    e.state ((e.state s).bindParams closure.untraced inner' (untracedBound rest)) =
      e.state (s.bindParams closure inner rest) := by
  have hinner := @state_bindParams e (e.state s) inner' closure.untraced (untracedBound rest)
  rw [state_state, Closure.untraced_untraced, untracedBound_untracedBound, hi, state_bindParams] at hinner
  exact hinner.symm

lemma untracedBound_zip {params : List Param} {bound : List (Option Value)} :
    (unplacedParams params).zip (bound.map (Option.map Value.untraced)) = untracedBound (params.zip bound) := by
  rw [unplacedParams_eq_map, List.zip_map]
  rfl

lemma state_callFunction {args : List Value} {kwargs : Dict Value} :
    e.state ((e.state s).callFunction closure.untraced (untracedValues args) (untracedDict kwargs) span' ctx') =
      e.state (s.callFunction closure args kwargs span ctx) := by
  have hparams : (closure.untraced.routine.params.map fun p => (p.name, p.slot)) =
      closure.routine.params.map fun p => (p.name, p.slot) := by
    simp [Closure.untraced, Routine.untraced, unplacedParams_eq_map, Function.comp_def, Param.name_unplaced,
      Param.slot_unplaced]
  have hname : closure.untraced.name = closure.name := rfl
  obtain ⟨hinner, htables⟩ := @Context.nest_untraced closure.context s.world.tables closure.name closure.name
    (some ctx')
    (some ctx) span' span
  unfold State.callFunction
  dsimp only
  rw [hparams, hname, bindArguments_untraced]
  cases bindArguments closure.name (closure.routine.params.map fun p => (p.name, p.slot)) args kwargs with
  | error f => exact fails
  | ok bound =>
    -- The new contexts differ in their callers, so parameters are bound in contexts that are equal without traces only.
    have hstate : (e.state s).setTables (Context.nest closure.name closure.context.untraced (some ctx') span'
        s.world.tables.untraced).2 = e.state (s.setTables (Context.nest closure.name closure.context (some ctx) span
          s.world.tables).2) := by
      rw [htables]
      rfl
    have hbound := @state_bindParams_of_inner e
      (s.setTables (Context.nest closure.name closure.context (some ctx) span s.world.tables).2) _ _ closure
      (closure.routine.params.zip bound) hinner
    rw [← hstate, ← untracedBound_zip] at hbound
    exact hbound

lemma ofResult_untracedResult (r : Result) : Completion.ofResult
    (untracedResult r) = (Completion.ofResult r).untraced := by
  cases r <;> rfl

lemma state_startWork {w : Work} (hp : e.place ctx' = e.place ctx) :
    e.state ((e.state s).startWork span' ctx' (e.work w)) = e.state (s.startWork span ctx w) := by
  have hs := e.state_state s
  cases w with
  | call closure inner => exact state_enterBody
  | receive id span ctx => exact state_of_eq rfl
  | background | timer => exact state_wait hs (by simp [wait, hp])

lemma state_drive {id : Nat} {name : String} (hp : e.place ctx' = e.place ctx) :
    e.state ((e.state s).drive id name span' ctx') = e.state (s.drive id name span ctx) := by
  have hs := e.state_state s
  have hcoroutines : (e.state s).world.coroutines = s.world.coroutines.map e.coroutine := rfl
  unfold State.drive
  rw [hcoroutines, Array.getElem?_map]
  cases s.world.coroutines[id]? with
  | none => exact state_fail hs
  | some c => cases c with
    | pending w =>
      have hrunning : ((e.state s).setCoroutine id .running).push (.memoize id) =
          e.state ((s.setCoroutine id .running).push (.memoize id)) :=
        congrArg (State.push · (.memoize id)) (setCoroutine_state (c := .running))
      have hstarted := @state_startWork e ((s.setCoroutine id .running).push (.memoize id)) ctx ctx' span span' w hp
      rwa [← hrunning] at hstarted
    | running => exact state_fail hs
    | done r => exact state_of_eq (congrArg (e.state s).finish (ofResult_untracedResult r))

lemma state_settled {v : Value} (hp : e.place ctx' = e.place ctx) :
    e.state ((e.state s).settled v.untraced span' ctx') = e.state (s.settled v span ctx) := by
  cases v with
  | coroutine id name => exact state_drive hp
  | _ => exact state_of_eq rfl

lemma state_settled_of_eq {v : Value} (hs : e.state s' = e.state s) (hp : e.place ctx' = e.place ctx) :
    e.state (s'.settled v.untraced span' ctx') = e.state (s.settled v span ctx) := by
  have hfirst := @state_settled e s' ctx' ctx' span' span' v.untraced rfl
  rw [hs, Value.untraced_untraced, state_settled hp] at hfirst
  exact hfirst.symm

lemma state_gatherNext {done rest : List Value} (hp : e.place ctx' = e.place ctx) :
    e.state ((e.state s).gatherNext (untracedValues done) span' ctx' (untracedValues rest)) =
      e.state (s.gatherNext done span ctx rest) := by
  cases rest with
  | nil => exact gives (by simp)
  | cons c rest =>
    refine state_settled_of_eq (state_push (e.state_state s) ?_) hp
    simp [frame, hp]

lemma withDeadline_state {limit : Nat} : (e.state s).withDeadline limit = e.state (s.withDeadline limit) := rfl

end calls

end Erasure

end ScriptMachine
