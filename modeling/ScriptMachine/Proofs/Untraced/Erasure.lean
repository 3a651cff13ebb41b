import ScriptMachine.Proofs.Untraced

/-! Machines without what is there for tracebacks only. -/

namespace ScriptMachine

structure Erasure where
  place : Context → Context
  place_untraced (c : Context) : place c.untraced = place c
  place_place (c : Context) : place (place c) = place c

def Context.nowhere : Context := ⟨"", default, [], [], [], 0⟩

attribute [simp] Erasure.place_untraced Erasure.place_place

def Failure.untraced (f : Failure) : Failure := ⟨f.fault, []⟩

def untracedResult : Result → Result
  | .ok v => .ok v.untraced
  | .error f => .error f.untraced

namespace Completion

def untraced : Completion → Completion
  | value v => value v.untraced
  | error f => error f.untraced
  | return_ v => return_ v.untraced
  | break_ => break_
  | continue_ => continue_

end Completion

def Outcome.untraced (o : Outcome) : Outcome :=
    ⟨o.sent.map untracedResult, o.producerGone, o.settled.map untracedResult⟩

def Answer.untraced : Answer → Answer
  | .ready r => .ready (untracedResult r)
  | .pending => .pending
  | .lost => .lost

def RangeLoop.untraced (l : RangeLoop) : RangeLoop :=
  ⟨l.var, l.stop.untraced, l.step.untraced, l.ascending, l.body.unplaced, l.multiline, .point 0, l.ctx.untraced⟩

def RangeHead.untraced (h : RangeHead) : RangeHead :=
  ⟨h.var, h.stop.unplaced, unplacedOption h.step, h.body.unplaced, h.multiline, .point 0, h.ctx.untraced⟩

def EachLoop.untraced (l : EachLoop) : EachLoop :=
  ⟨l.vars, l.body.unplaced, l.multiline, .point 0, l.ctx.untraced⟩

def WhileLoop.untraced (l : WhileLoop) : WhileLoop :=
  ⟨l.condition.unplaced, l.body.unplaced, l.multiline, .point 0, l.ctx.untraced⟩

abbrev untracedBound (bound : List (Param × Option Value)) : List (Param × Option Value) :=
  bound.map fun b => (b.1.unplaced, b.2.map Value.untraced)

namespace Erasure

variable (e : Erasure)

def wait : Wait → Wait
  | .moment time _ ctx => .moment time (.point 0) (e.place ctx)
  | .coChannel id _ ctx => .coChannel id (.point 0) (e.place ctx)
  | .background r _ ctx => .background (untracedResult r) (.point 0) (e.place ctx)
  | .channel id until_ => .channel id until_
  | .turn p limit _ ctx => .turn p limit (.point 0) (e.place ctx)
  | .outcome p limit until_ _ ctx => .outcome p limit until_ (.point 0) (e.place ctx)
  | .query p => .query p
  | .drained pool => .drained pool

def frame : Frame → Frame
  | .listItem done rest ctx => .listItem (untracedValues done) (unplacedNodes rest) ctx.untraced
  | .mapKey entries key value rest ctx =>
    .mapKey (untracedDict entries) key.unplaced value.unplaced (unplacedPairs rest) ctx.untraced
  | .mapValue entries key rest ctx => .mapValue (untracedDict entries) key (unplacedPairs rest) ctx.untraced
  | .statement rest ctx => .statement (unplacedNodes rest) ctx.untraced
  | .assign name ctx => .assign name ctx.untraced
  | .unpack names _ ctx => .unpack names (.point 0) ctx.untraced
  | .storeKey target value _ ctx => .storeKey target.unplaced value.unplaced (.point 0) ctx.untraced
  | .storeValue target key _ ctx => .storeValue target.unplaced key.untraced (.point 0) ctx.untraced
  | .storeOuterKey left target key value result _ ctx =>
    .storeOuterKey left.unplaced target.unplaced key.untraced value.untraced result.untraced (.point 0) ctx.untraced
  | .storeContainer outer key value result _ ctx =>
    .storeContainer (outer.map fun o => (o.1.unplaced, o.2.untraced)) key.untraced value.untraced result.untraced
      (.point 0) ctx.untraced
  | .logicLeft conjunction right _ ctx => .logicLeft conjunction right.unplaced (.point 0) ctx.untraced
  | .logicRight _ ctx => .logicRight (.point 0) (e.place ctx)
  | .binaryLeft op right _ ctx => .binaryLeft op right.unplaced (.point 0) ctx.untraced
  | .binaryRight op left _ ctx => .binaryRight op left.untraced (.point 0) (e.place ctx)
  | .unary op _ ctx => .unary op (.point 0) (e.place ctx)
  | .condition body rest otherwise multiline ctx =>
    .condition body.unplaced (unplacedPairs rest) (unplacedOption otherwise) multiline ctx.untraced
  | .branchBody multiline => .branchBody multiline
  | .rangeStart head => .rangeStart head.untraced
  | .rangeStop head start => .rangeStop head.untraced start.untraced
  | .rangeStep head start stop => .rangeStep head.untraced start.untraced stop.untraced
  | .rangeBody loop current collected => .rangeBody loop.untraced current.untraced (untracedValues collected)
  | .eachSource loop => .eachSource loop.untraced
  | .eachBody loop rest collected => .eachBody loop.untraced (untracedValues rest) (untracedValues collected)
  | .whileCondition loop collected => .whileCondition loop.untraced (untracedValues collected)
  | .whileBody loop collected => .whileBody loop.untraced (untracedValues collected)
  | .decorator function _ rest name ctx =>
    .decorator function.untraced (.point 0) (unplacedNodes rest) name ctx.untraced
  | .decorated rest name ctx => .decorated (unplacedNodes rest) name ctx.untraced
  | .callee args _ ctx => .callee (unplacedArgs args) (.point 0) ctx.untraced
  | .argument callee positional keywords current rest _ ctx =>
    .argument callee.untraced (untracedValues positional) (untracedDict keywords) current.unplaced (unplacedArgs rest)
      (.point 0) ctx.untraced
  | .member name _ ctx => .member name (.point 0) (e.place ctx)
  | .namespaceBody ns current rest name _ ctx =>
    .namespaceBody ns.untraced current.unplaced (unplacedNodes rest) name (.point 0) (e.place ctx)
  | .await _ ctx => .await (.point 0) (e.place ctx)
  | .returned => .returned
  | .moduleStatement current rest ctx => .moduleStatement current.unplaced (unplacedNodes rest) ctx.untraced
  | .leaveModule => .leaveModule
  | .default closure inner name node rest =>
    .default closure.untraced inner.untraced name node.unplaced (untracedBound rest)
  | .functionBody closure inner => .functionBody closure.untraced inner.untraced
  | .memoize coroutine => .memoize coroutine
  | .gathered done rest _ ctx => .gathered (untracedValues done) (untracedValues rest) (.point 0) (e.place ctx)
  | .restoreDeadline outer => .restoreDeadline outer
  | .settle _ ctx => .settle (.point 0) (e.place ctx)
  | .caught => .caught
  | .panicked => .panicked
  | .cleanup final _ ctx => .cleanup final.untraced (.point 0) (e.place ctx)
  | .cleanedUp result => .cleanedUp result.untraced
  | .threadEnd number => .threadEnd number
  | .jobEnd future pool => .jobEnd future pool

def callPlace (callee : Value) (ctx : Context) : Context :=
  match callee with
  | .function _ _ => .nowhere
  | _ => e.place ctx

def control : Control → Control
  | .eval node ctx => .eval node.unplaced ctx.untraced
  | .call callee args kwargs _ ctx =>
    .call callee.untraced (untracedValues args) (untracedDict kwargs) (.point 0) (e.callPlace callee ctx)
  | .done c => .done c.untraced
  | .wait w => .wait (e.wait w)

def task (t : Task) : Task := ⟨e.control t.control, t.stack.map e.frame, t.depth, t.deadline, t.thread, t.clock⟩

def work : Work → Work
  | .call closure inner => .call closure.untraced inner.untraced
  | .receive coChannel _ ctx => .receive coChannel (.point 0) (e.place ctx)
  | .background r => .background (untracedResult r)
  | .timer time => .timer time

def coroutine : Coroutine → Coroutine
  | .pending w => .pending (e.work w)
  | .running => .running
  | .done r => .done (untracedResult r)

def thread (t : Thread) : Thread := ⟨t.outcome.untraced, t.watched, t.cancelled⟩

def future (f : Future) : Future := ⟨f.outcome.untraced, f.watched⟩

def job (j : Job) : Job :=
  ⟨j.future, j.callee.untraced, untracedValues j.args, untracedDict j.kwargs, .point 0, e.place j.ctx⟩

def pool (p : Pool) : Pool := ⟨p.idle, p.workers, p.queue.map e.job, p.closed⟩

def world (w : World) : World :=
  ⟨w.settings, w.globals, w.heap.untraced, w.tables.untraced, w.functions, w.coroutines.map e.coroutine, w.namespaces,
    w.channels.map untracedValues, w.coChannels.map untracedValues, w.threads.map thread, w.futures.map future,
    w.pools.map e.pool, w.files, w.input, w.output, w.born.map e.task⟩

def state (s : State) : State := ⟨e.world s.world, e.task s.task⟩

def machine (m : Machine) : Machine := ⟨e.world m.world, e.task m.main, m.others.map e.task, m.now⟩

def invocation (inv : Invocation) : Invocation :=
  ⟨inv.builtin, untracedValues inv.args, .point 0, e.place inv.ctx⟩

@[simp] lemma untraced_failure (f : Failure) : f.untraced.untraced = f.untraced := rfl

@[simp] lemma untracedResult_untracedResult (r : Result) : untracedResult (untracedResult r) = untracedResult r := by
  cases r <;> simp [untracedResult]

@[simp] lemma untraced_completion (c : Completion) : c.untraced.untraced = c.untraced := by
  cases c <;> simp [Completion.untraced]

@[simp] lemma untraced_outcome (o : Outcome) : o.untraced.untraced = o.untraced := by
  simp [Outcome.untraced, Function.comp_def]

@[simp] lemma untracedBound_untracedBound (bound : List (Param × Option Value)) :
    untracedBound (untracedBound bound) = untracedBound bound := by
  simp [untracedBound, Function.comp_def, Param.unplaced_unplaced]

@[simp] lemma wait_wait (w : Wait) : e.wait (e.wait w) = e.wait w := by
  cases w <;> simp [wait]

@[simp] lemma frame_frame (f : Frame) : e.frame (e.frame f) = e.frame f := by
  cases f <;> simp [frame, Node.unplaced_unplaced, unplacedNodes_unplacedNodes, unplacedPairs_unplacedPairs,
    unplacedOption_unplacedOption, unplacedArgs_unplacedArgs, Arg.unplaced_unplaced, RangeLoop.untraced,
    RangeHead.untraced, EachLoop.untraced, WhileLoop.untraced, Function.comp_def, Param.unplaced_unplaced]

@[simp] lemma callPlace_untraced (callee : Value) (ctx : Context) :
    e.callPlace callee.untraced ctx = e.callPlace callee ctx := by cases callee <;> rfl

@[simp] lemma callPlace_callPlace (callee : Value) (ctx : Context) :
    e.callPlace callee (e.callPlace callee ctx) = e.callPlace callee ctx := by cases callee <;> simp [callPlace]

lemma callPlace_of_place {e : Erasure} {ctx ctx' : Context} (hp : e.place ctx' = e.place ctx) (callee : Value) :
    e.callPlace callee ctx' = e.callPlace callee ctx := by
  cases callee with
  | function => rfl
  | _ => exact hp

@[simp] lemma control_control (c : Control) : e.control (e.control c) = e.control c := by
  cases c <;> simp [control, Node.unplaced_unplaced]

@[simp] lemma task_task (t : Task) : e.task (e.task t) = e.task t := by simp [task, Function.comp_def]

@[simp] lemma coroutine_coroutine (c : Coroutine) : e.coroutine (e.coroutine c) = e.coroutine c := by
  cases c with
  | pending w => cases w <;> simp [coroutine, work]
  | running => rfl
  | done r => simp [coroutine]

@[simp] lemma job_job (j : Job) : e.job (e.job j) = e.job j := by simp [job]

@[simp] lemma pool_pool (p : Pool) : e.pool (e.pool p) = e.pool p := by simp [pool, Function.comp_def]

@[simp] lemma world_world (w : World) : e.world (e.world w) = e.world w := by
  simp [world, thread, future, Function.comp_def]

@[simp] lemma state_state (s : State) : e.state (e.state s) = e.state s := by simp [state]

@[simp] lemma machine_machine (m : Machine) : e.machine (e.machine m) = e.machine m := by
  simp [machine, Function.comp_def]

end Erasure

end ScriptMachine
