import ScriptMachine.Machine.Builtins

/-! Built-in functions on coroutines, threads, pools and channels, and what becomes of a task that waits. -/

namespace ScriptMachine

namespace State

def callTask (s : State) (callee : Value) (args : List Value) (kwargs : Dict Value) (span : Span) (ctx : Context)
    (last : Frame) (thread : Option Nat) : Task where
  control := .call callee args kwargs span ctx
  stack := [.settle span ctx, last]
  thread := thread
  clock := s.task.clock + startDelay

def threadStart (s : State) (inv : Invocation) : Except Fault State := do
  let callee ← inv.callable 0
  let args ← inv.items s.world.heap 1
  let kwargs ← inv.entries s.world.heap 2
  let number := s.world.threads.size
  let task := s.callTask callee args kwargs inv.span inv.ctx (.threadEnd number) (some number)
  let s := { s with world := { s.world with threads := s.world.threads.push {} } }
  return (s.spawn task).value (.thread number)

def newPool (s : State) (inv : Invocation) : Except Fault State := do
  let workers ← inv.int 0
  if workers.toInt < 1 then .error .noWorkers
  else
    let n := workers.toInt.toNat
    let v := Value.pool s.world.pools.size n
    return ({ s with world := { s.world with pools := s.world.pools.push { idle := n, workers := n } } }).value v

def setPool (s : State) (id : Nat) (p : Pool) : State :=
  { s with world := { s.world with pools := s.world.pools.setIfInBounds id p } }

def jobTask (s : State) (pool : Nat) (job : Job) : Task :=
  s.callTask job.callee job.args job.kwargs job.span job.ctx (.jobEnd job.future pool) none

def submit (s : State) (inv : Invocation) : Except Fault State := do
  let id ← inv.pool 0
  let callee ← inv.callable 1
  let args ← inv.items s.world.heap 2
  let kwargs ← inv.entries s.world.heap 3
  match s.world.pools[id]? with
  | none => .error .poolClosed
  | some pool =>
    if pool.closed then .error .poolClosed
    else
      let future := s.world.futures.size
      let job : Job := ⟨future, callee, args, kwargs, inv.span, inv.ctx⟩
      let s := { s with world := { s.world with futures := s.world.futures.push {} } }
      let s := match pool.idle with
        | 0 => s.setPool id { pool with queue := pool.queue ++ [job] }
        | idle + 1 => (s.setPool id { pool with idle }).spawn (s.jobTask id job)
      return s.value (.future future)

def shutdown (s : State) (inv : Invocation) : Except Fault State := do
  let id ← inv.pool 0
  let wait ← inv.bool 1
  let s := match s.world.pools[id]? with
    | some pool => s.setPool id { pool with closed := true }
    | none => s
  return if wait then s.wait (.drained id) else s.value .nil

def isDrained (s : State) (pool : Nat) : Bool :=
  match s.world.pools[pool]? with
  | some p => p.queue.isEmpty && p.idle = p.workers
  | none => true

def outcome? (s : State) : Producer → Option (Outcome × Bool)
  | .thread number => s.world.threads[number]?.map fun t => (t.outcome, t.watched)
  | .future id => s.world.futures[id]?.map fun f => (f.outcome, f.watched)

def setOutcome (s : State) (p : Producer) (o : Outcome) (watched : Bool) : State :=
  match p with
  | .thread number =>
    { s with world := { s.world with threads := s.world.threads.modify number ({ · with outcome := o, watched }) } }
  | .future id =>
    { s with world := { s.world with futures := s.world.futures.modify id ({ · with outcome := o, watched }) } }

def answered (s : State) (p : Producer) (limit : Option Nat) (span : Span) (ctx : Context) (a : Answer) : State :=
  match p, a with
  | .thread _, .ready (.ok v) => s.value v
  | .thread _, _ => s.value .nil
  | .future _, .ready r => s.finish (.ofResult r)
  | .future _, .pending => s.fail (.futurePending (Number.secondsOfNanos (limit.getD 0))) span ctx
  | .future _, .lost => s.fail .futureAbandoned span ctx

def isOver (s : State) (time : Option Nat) : Bool :=
  match time with
  | some t => t ≤ s.task.clock
  | none => false

def look (s : State) (p : Producer) (limit until_ : Option Nat) (span : Span) (ctx : Context) : State :=
  match s.outcome? p with
  | none => s.answered p limit span ctx .lost
  | some (o, _) =>
    match o.poll with
    | (.pending, o) =>
      if s.isOver until_ then (s.setOutcome p o false).answered p limit span ctx .pending
      else (s.setOutcome p o true).wait (.outcome p limit until_ span ctx)
    | (a, o) => (s.setOutcome p o false).answered p limit span ctx a

def endOf (s : State) (limit : Option Nat) : Option Nat := limit.bind s.after

def receive (s : State) (id : Nat) (until_ : Option Nat) : State :=
  match s.world.channels[id]? with
  | some (v :: rest) =>
    ({ s with world := { s.world with channels := s.world.channels.setIfInBounds id rest } }).value v
  | _ => if s.isOver until_ then s.value .nil else s.wait (.channel id until_)

def receiveCo (s : State) (id : Nat) (span : Span) (ctx : Context) : State :=
  match s.world.coChannels[id]? with
  | some (v :: rest) =>
    ({ s with world := { s.world with coChannels := s.world.coChannels.setIfInBounds id rest } }).value v
  | _ => s.wait (.coChannel id span ctx)

def heeding (s : State) (span : Span) (ctx : Context) (ready : State → State) : State :=
  match s.interruption? with
  | some f => s.fail f span ctx
  | none => ready s

def retry (s : State) (w : Wait) : State :=
  match w with
  | .moment time span ctx => s.heeding span ctx fun s => if s.isOver time then s.value .nil else s.wait w
  | .coChannel id span ctx => s.heeding span ctx fun s => s.receiveCo id span ctx
  | .background r span ctx => s.heeding span ctx fun s => s.finish (.ofResult r)
  | .channel id until_ => s.receive id until_
  | .turn p limit span ctx =>
    match s.outcome? p with
    | some (_, true) => s.wait w
    | _ => s.look p limit (s.endOf limit) span ctx
  | .outcome p limit until_ span ctx => s.look p limit until_ span ctx
  | .query p =>
    match s.outcome? p with
    | some (_, true) => s.wait w
    | some (o, false) =>
      let (settled, o) := o.isSettled
      let s := s.setOutcome p o false
      match p with
      | .thread _ => s.value (.bool (!settled))
      | .future _ => s.value (.bool settled)
    | none => s.value .nil
  | .drained pool => if s.isDrained pool then s.value .nil else s.wait w

def wakeTime? (s : State) (now : Nat) (w : Wait) : Option Nat :=
  let soon := max now s.task.clock
  let deadline := s.task.deadline.map fun d => max soon d.at_
  let earlier (a b : Option Nat) : Option Nat := match a, b with
    | some a, some b => some (min a b)
    | a, b => a.or b
  let heeding (time : Option Nat) : Option Nat :=
    if s.isCancelled then some soon else earlier (time.map (max soon ·)) deadline
  match w with
  | .moment time _ _ => heeding time
  | .coChannel id _ _ => heeding (match s.world.coChannels[id]? with
    | some (_ :: _) => some soon
    | _ => none)
  | .background _ _ _ => some soon
  | .channel id until_ =>
    match s.world.channels[id]? with
    | some (_ :: _) => some soon
    | _ => until_.map (max soon ·)
  | .turn p _ _ _ | .query p =>
    match s.outcome? p with
    | some (_, true) => none
    | _ => some soon
  | .outcome p _ until_ _ _ =>
    match s.outcome? p with
    | some (o, _) =>
      match o.poll.1 with
      | .pending => until_.map (max soon ·)
      | _ => some soon
    | none => some soon
  | .drained pool => if s.isDrained pool then some soon else none

def nextJob (s : State) (pool : Nat) : State :=
  match s.world.pools[pool]? with
  | some p =>
    match p.queue with
    | job :: rest =>
      let s := s.setPool pool { p with queue := rest }
      { s with task := { s.jobTask pool job with clock := s.task.clock } }
    | [] => (s.setPool pool { p with idle := p.idle + 1 }).value .nil
  | none => s.value .nil

end State

end ScriptMachine
