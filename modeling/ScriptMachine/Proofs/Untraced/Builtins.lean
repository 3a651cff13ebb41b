import ScriptMachine.Proofs.Untraced.Calls

/-! Built-in functions without places: none of them looks at the place it is called from. -/

namespace ScriptMachine

open List State

namespace Erasure

variable {e : Erasure} {s s' : State}

section arguments

variable {inv : Invocation} {h : Heap} {i : Nat}

@[simp] lemma arg_invocation : (e.invocation inv).arg i = (inv.arg i).untraced := by
  simp only [Invocation.arg, invocation, getD_eq_getElem?_getD, getElem?_map]
  cases inv.args[i]? <;> rfl

@[simp] lemma typed_invocation :
    (e.invocation inv).int i = inv.int i ∧ (e.invocation inv).bool i = inv.bool i ∧
    (e.invocation inv).string i = inv.string i ∧ (e.invocation inv).coroutine i = inv.coroutine i ∧
    (e.invocation inv).thread i = inv.thread i ∧ (e.invocation inv).pool i = inv.pool i ∧
    (e.invocation inv).future i = inv.future i ∧ (e.invocation inv).channel i = inv.channel i ∧
    (e.invocation inv).coChannel i = inv.coChannel i ∧ (e.invocation inv).path i = inv.path i := by
  simp only [Invocation.int, Invocation.bool, Invocation.string, Invocation.coroutine, Invocation.thread,
    Invocation.pool, Invocation.future, Invocation.channel, Invocation.coChannel, Invocation.path, arg_invocation]
  cases inv.arg i <;> exact ⟨rfl, rfl, rfl, rfl, rfl, rfl, rfl, rfl, rfl, rfl⟩

@[simp] lemma number_invocation : (e.invocation inv).number i = inv.number i := by
  simp only [Invocation.number, arg_invocation, Value.float?_untraced]
  cases (inv.arg i).float? <;> rfl

@[simp] lemma items_invocation : (e.invocation inv).items h.untraced i = (inv.items h i).map untracedValues := by
  simp only [Invocation.items, arg_invocation, Heap.items?_untraced]
  cases h.items? (inv.arg i) <;> rfl

@[simp] lemma entries_invocation : (e.invocation inv).entries h.untraced i = (inv.entries h i).map untracedDict := by
  simp only [Invocation.entries, arg_invocation, Heap.entries?_untraced]
  cases h.entries? (inv.arg i) <;> rfl

@[simp] lemma callable_invocation : (e.invocation inv).callable i = (inv.callable i).map Value.untraced := by
  simp only [Invocation.callable, arg_invocation, Value.isCallable_untraced]
  split <;> rfl

@[simp] lemma seconds?_invocation : (e.invocation inv).seconds? i = inv.seconds? i := by
  simp only [Invocation.seconds?, arg_invocation, Value.isNil_untraced, number_invocation]

@[simp] lemma seconds_invocation : (e.invocation inv).seconds i = inv.seconds i := by
  simp only [Invocation.seconds, seconds?_invocation]
  rfl

@[simp] lemma wrong_invocation {α : Type} {expected : String} :
    ((e.invocation inv).wrong i expected : Except Fault α) = inv.wrong i expected := rfl

end arguments

abbrev states (e : Erasure) (r : Except Fault State) : Except Fault State := r.map e.state

/-- Called from anywhere, a function of an invocation does the same. -/
abbrev Blind (e : Erasure) (s : State) (inv : Invocation) (f : State → Invocation → Except Fault State) : Prop :=
  e.states (f (e.state s) (e.invocation inv)) = e.states (f s inv)

section binds

variable {α : Type} {x : Except Fault α} {f f' : α → Except Fault State}

lemma states_bind (h : ∀ a, e.states (f' a) = e.states (f a)) : e.states (x >>= f') = e.states (x >>= f) := by
  cases x with
  | error fault => rfl
  | ok a => exact h a

lemma states_bind_map {u : α → α} (h : ∀ a, e.states (f' (u a)) = e.states (f a)) :
    e.states (x.map u >>= f') = e.states (x >>= f) := by
  cases x with
  | error fault => rfl
  | ok a => exact h a

lemma states_states {r : Except Fault State} : e.states (e.states r) = e.states r := by
  cases r with
  | error f => rfl
  | ok s => exact congrArg Except.ok (e.state_state s)

lemma states_ok (h : e.state s' = e.state s) : e.states (.ok s') = e.states (.ok s) := congrArg Except.ok h

end binds

section values

variable {text : String} {p : Path} {items : List Value} {inv : Invocation}

lemma print_state : (e.state s).print text = e.state (s.print text) := rfl

lemma readLine_world (w : World) : (e.world w).readLine = (w.readLine.1, e.world w.readLine.2) := by
  have hinput : (e.world w).input = w.input := rfl
  unfold World.readLine
  rw [hinput]
  cases splitLine w.input
  rfl

lemma state_input : e.state ((e.state s).input (e.invocation inv)) = e.state (s.input inv) := by
  have hworld : (e.state (s.print (s.world.heap.text (inv.arg 0)))).world =
      e.world (s.print (s.world.heap.text (inv.arg 0))).world := rfl
  simp only [input, arg_invocation, heap_state, Heap.text_untraced, print_state, hworld, readLine_world]
  cases (s.print (s.world.heap.text (inv.arg 0))).world.readLine.1 with
  | ok line => exact state_of_eq rfl
  | error reason => exact @state_fail e ⟨_, _⟩ ⟨e.world _, _⟩ _ _ _ _ (state_of_eq rfl) _

lemma states_convert {α : Type} {target : String} {wrap : α → Value} {result : Option α} :
    e.states ((e.state s).convert (e.invocation inv) target wrap result) = e.states
    (s.convert inv target wrap result) := by
  cases result with
  | none => simp only [convert, heap_state, arg_invocation, Heap.repr_untraced]
  | some a => exact states_ok (gives rfl)

lemma byte?_untraced (v : Value) : Convert.byte? v.untraced = Convert.byte? v := by cases v <;> rfl

lemma mapM_byte?_untraced (items : List Value) :
    (untracedValues items).mapM Convert.byte? = items.mapM Convert.byte? := by
  have hbyte : Convert.byte? ∘ Value.untraced = Convert.byte? := funext byte?_untraced
  rw [mapM_map, hbyte]

lemma states_bytesOf : e.Blind s inv bytesOf := by
  simp only [Blind, bytesOf, arg_invocation, heap_state]
  cases inv.arg 0 with
  | bytes | str => exact states_ok (state_of_eq rfl)
  | list items =>
    simp only [Value.untraced_list, Heap.items?, mapM_byte?_untraced]
    cases items.mapM Convert.byte? with
    | none => rfl
    | some bs => exact states_ok (state_of_eq rfl)
  | sharedList cell =>
    simp only [Value.untraced, Heap.items?, Heap.list_untraced, mapM_byte?_untraced]
    cases (s.world.heap.list cell).mapM Convert.byte? with
    | none => rfl
    | some bs => exact states_ok (state_of_eq rfl)
  | _ => rfl

lemma states_textOf : e.Blind s inv textOf := by
  simp only [Blind, textOf, arg_invocation]
  cases inv.arg 0 with
  | bytes bs =>
    simp only [Value.untraced]
    cases FileTree.decodeText bs with
    | error reason => rfl
    | ok text => exact states_ok (state_of_eq rfl)
  | _ => rfl

lemma state_withItems {list : Value} :
    e.state ((e.state s).withItems list.untraced (untracedValues items)) = e.state (s.withItems list items) := by
  simp only [withItems, heap_state, Heap.putItems_untraced]
  exact state_of_eq rfl

lemma getD_untracedValues {p : Nat} : (untracedValues items).getD p .nil = (items.getD p .nil).untraced := by
  simp only [getD_eq_getElem?_getD, getElem?_map]
  cases items[p]? <;> rfl

lemma states_pop : e.Blind s inv pop := by
  simp only [Blind, pop, heap_state, items_invocation, typed_invocation, arg_invocation]
  refine states_bind_map fun items => states_bind fun index => ?_
  simp only [length_map, getD_untracedValues, untracedValues, eraseIdx_map]
  cases position? index items.length with
  | none => rfl
  | some p => exact states_ok (state_value state_withItems (Value.untraced_untraced _))

lemma states_range : e.Blind s inv State.range := by
  have hnumbers (start stop step : Int64) :
      e.states (if step.toInt = 0 then .error .zeroRangeStep
        else pure ((e.state s).value (.list ((countUpTo stop step start []).map .int)))) =
      e.states (if step.toInt = 0 then .error .zeroRangeStep
        else pure (s.value (.list ((countUpTo stop step start []).map .int)))) := by
    split
    · rfl
    · exact states_ok (gives rfl)
  simp only [Blind, State.range, arg_invocation, typed_invocation, Value.isNil_untraced]
  split
  · exact states_bind fun stop => states_bind fun bounds => states_bind fun step => hnumbers ..
  · exact states_bind fun start => states_bind fun stop => states_bind fun bounds => states_bind fun step => hnumbers ..

lemma states_setShared : e.Blind s inv setShared := by
  simp only [Blind, setShared, heap_state, arg_invocation, typed_invocation, Heap.items?_untraced,
    Heap.entries?_untraced]
  refine states_bind fun shared => ?_
  cases s.world.heap.items? (inv.arg 0) with
  | some items => cases shared with
    | true =>
      simp only [Option.map_some, Heap.allocList_untraced, if_pos]
      exact states_ok (state_of_eq rfl)
    | false => exact states_ok (gives (by simp))
  | none => cases s.world.heap.entries? (inv.arg 0) with
    | some entries => cases shared with
      | true =>
        simp only [Option.map_some, Option.map_none, Heap.allocMap_untraced, if_pos]
        exact states_ok (state_of_eq rfl)
      | false => exact states_ok (gives (by simp))
    | none => rfl

lemma states_openFile : e.Blind s inv openFile := by
  simp only [Blind, openFile, typed_invocation]
  exact states_bind fun path => states_ok (gives rfl)

@[simp] lemma readFile_state : (e.state s).readFile p = s.readFile p := rfl

lemma writeFile_state : (e.state s).writeFile p text = e.states (s.writeFile p text) := by
  have hfiles : (e.state s).world.files = s.world.files := rfl
  unfold writeFile
  rw [hfiles]
  cases s.world.files.write p text <;> rfl

lemma state_newCoroutine {w w' : Work} {name : String} (hs : e.state s' = e.state s) (hw : e.work w' = e.work w) :
    e.state ((s'.newCoroutine name w').2.value (s'.newCoroutine name w').1) =
      e.state ((s.newCoroutine name w).2.value (s.newCoroutine name w).1) := by
  have hnew (s : State) (w : Work) : e.state ((s.newCoroutine name w).2.value (s.newCoroutine name w).1) =
      ((e.state s).newCoroutine name (e.work w)).2.value ((e.state s).newCoroutine name (e.work w)).1 := by
    rw [newCoroutine_state]
    rfl
  rw [hnew, hnew, hs, hw]

lemma state_inBackground {r r' : Except Fault Value} (hs : e.state s' = e.state s)
    (hr : r'.map Value.untraced = r.map Value.untraced) :
    e.state (s'.inBackground (e.invocation inv) r') = e.state (s.inBackground inv r) := by
  have hresult (inv : Invocation) (r : Except Fault Value) :
      untracedResult (r.mapError (·.at_ inv.span inv.ctx)) = (r.map Value.untraced).mapError (⟨.of ·, []⟩) := by
    cases r <;> rfl
  refine state_newCoroutine hs ?_
  rw [work, work, hresult, hresult, hr]

lemma state_writeInBackground :
    e.state ((e.state s).writeInBackground (e.invocation inv) p text) = e.state (s.writeInBackground inv p text) := by
  unfold writeInBackground
  rw [writeFile_state]
  cases s.writeFile p text with
  | error f => exact state_inBackground (e.state_state s) rfl
  | ok written => exact state_inBackground (e.state_state written) rfl

end values

section tasks

variable {id : Nat} {p : Producer} {inv : Invocation}

@[simp] lemma size_threads_state : (e.state s).world.threads.size = s.world.threads.size := Array.size_map

@[simp] lemma size_futures_state : (e.state s).world.futures.size = s.world.futures.size := Array.size_map

@[simp] lemma size_pools_state : (e.state s).world.pools.size = s.world.pools.size := Array.size_map

lemma spawn_state {t : Task} : (e.state s).spawn (e.task t) = e.state (s.spawn t) := by
  simp [spawn, state, world]

lemma state_spawn {t t' : Task} (hs : e.state s' = e.state s) (ht : e.task t' = e.task t) :
    e.state (s'.spawn t') = e.state (s.spawn t) := by rw [← spawn_state, ← spawn_state, hs, ht]

lemma task_callTask {callee : Value} {args : List Value} {kwargs : Dict Value} {span span' : Span} {ctx ctx' : Context}
    {last last' : Frame} {thread : Option Nat} (hc : s'.task.clock = s.task.clock) (hp : e.place ctx' = e.place ctx)
    (hl : e.frame last' = e.frame last) :
    e.task (s'.callTask callee.untraced (untracedValues args) (untracedDict kwargs) span' ctx' last' thread) =
      e.task (s.callTask callee args kwargs span ctx last thread) := by
  have hsettle (span : Span) (ctx : Context) : e.frame (.settle span ctx) = .settle (.point 0) (e.place ctx) := rfl
  simp [callTask, task, control, hsettle, hp, hc, hl, callPlace_of_place hp]

lemma states_threadStart : e.Blind s inv threadStart := by
  simp only [Blind, threadStart, callable_invocation, items_invocation, entries_invocation, heap_state,
    size_threads_state]
  refine states_bind_map fun callee => states_bind_map fun args => states_bind_map fun kwargs => ?_
  refine states_ok (state_value (state_spawn ?_ ?_) rfl)
  · refine state_of_eq ?_
    simp [state, world, thread, Outcome.untraced]
  · exact task_callTask rfl (e.place_place inv.ctx) rfl

lemma states_newPool : e.Blind s inv newPool := by
  simp only [Blind, newPool, typed_invocation, size_pools_state]
  refine states_bind fun workers => ?_
  split
  · rfl
  · refine states_ok (state_value (state_of_eq ?_) rfl)
    simp [state, world, pool]

lemma setPool_state {p : Pool} : (e.state s).setPool id (e.pool p) = e.state (s.setPool id p) := by
  simp [setPool, state, world]

lemma state_setPool {p p' : Pool} (hs : e.state s' = e.state s) (hp : e.pool p' = e.pool p) :
    e.state (s'.setPool id p') = e.state (s.setPool id p) := by rw [← setPool_state, ← setPool_state, hs, hp]

lemma getElem?_pools_state : (e.state s).world.pools[id]? = s.world.pools[id]?.map e.pool := Array.getElem?_map

lemma task_jobTask {pool : Nat} {j : Job} (hc : s'.task.clock = s.task.clock) :
    e.task (s'.jobTask pool (e.job j)) = e.task (s.jobTask pool j) :=
  task_callTask hc (e.place_place j.ctx) rfl

lemma states_submit : e.Blind s inv submit := by
  simp only [Blind, submit, typed_invocation, callable_invocation, items_invocation, entries_invocation,
    heap_state, size_futures_state, getElem?_pools_state]
  refine states_bind fun id => states_bind_map fun callee => states_bind_map fun args =>
    states_bind_map fun kwargs => ?_
  cases s.world.pools[id]? with
  | none => rfl
  | some p =>
    have hclosed : (e.pool p).closed = p.closed := rfl
    have hidle : (e.pool p).idle = p.idle := rfl
    simp only [Option.map_some, hclosed, hidle]
    split
    · rfl
    · have hfutures : e.state { e.state s with
            world := { (e.state s).world with futures := (e.state s).world.futures.push {} } } =
          e.state { s with world := { s.world with futures := s.world.futures.push {} } } :=
        state_of_eq (by simp [state, world, future, Outcome.untraced])
      refine states_ok (state_value ?_ rfl)
      cases p.idle with
      | zero => exact state_setPool hfutures (by simp [pool, job, invocation])
      | succ idle =>
        refine state_spawn (state_setPool hfutures (by simp [pool])) ?_
        exact task_callTask rfl (e.place_place inv.ctx) rfl

lemma state_closePool : e.state (match s.world.pools[id]?.map e.pool with
      | some pool => (e.state s).setPool id { pool with closed := true }
      | none => e.state s) =
    e.state (match s.world.pools[id]? with
      | some pool => s.setPool id { pool with closed := true }
      | none => s) := by
  cases s.world.pools[id]? with
  | none => exact e.state_state s
  | some p => exact state_setPool (e.state_state s) (by simp [pool])

lemma states_shutdown : e.Blind s inv shutdown := by
  simp only [Blind, shutdown, typed_invocation, getElem?_pools_state]
  refine states_bind fun id => states_bind fun wait => states_ok ?_
  cases wait with
  | true => exact state_wait state_closePool rfl
  | false => exact state_value state_closePool rfl

lemma isDrained_state : (e.state s).isDrained id = s.isDrained id := by
  unfold isDrained
  rw [getElem?_pools_state]
  cases s.world.pools[id]? with
  | none => rfl
  | some p => simp [pool]

lemma outcome?_state : (e.state s).outcome? p = (s.outcome? p).map fun r => (r.1.untraced, r.2) := by
  cases p with
  | thread number =>
    have hthreads : (e.state s).world.threads[number]? = s.world.threads[number]?.map thread := Array.getElem?_map
    simp only [outcome?, hthreads, Option.map_map]
    rfl
  | future id =>
    have hfutures : (e.state s).world.futures[id]? = s.world.futures[id]?.map future := Array.getElem?_map
    simp only [outcome?, hfutures, Option.map_map]
    rfl

lemma setOutcome_state {o : Outcome} {watched : Bool} :
    (e.state s).setOutcome p o.untraced watched = e.state (s.setOutcome p o watched) := by
  cases p with
  | thread number =>
    have hthreads : (s.world.threads.map thread).modify number ({ · with outcome := o.untraced, watched }) =
        (s.world.threads.modify number ({ · with outcome := o, watched })).map thread := modify_map fun _ => rfl
    exact congrArg (fun threads => { e.state s with world := { e.world s.world with threads } }) hthreads
  | future id =>
    have hfutures : (s.world.futures.map future).modify id ({ · with outcome := o.untraced, watched }) =
        (s.world.futures.modify id ({ · with outcome := o, watched })).map future := modify_map fun _ => rfl
    exact congrArg (fun futures => { e.state s with world := { e.world s.world with futures } }) hfutures

end tasks

section waits

variable {id : Nat} {p : Producer} {limit until_ : Option Nat} {span span' : Span} {ctx ctx' : Context}

lemma state_answered {a : Answer} (hs : e.state s' = e.state s) :
    e.state (s'.answered p limit span' ctx' a.untraced) = e.state (s.answered p limit span ctx a) := by
  cases p with
  | thread number => cases a with
    | ready r => cases r with
      | ok v => exact state_value hs (Value.untraced_untraced v)
      | error f => exact state_value hs rfl
    | pending | lost => exact state_value hs rfl
  | future id => cases a with
    | ready r => exact state_finish hs (by rw [ofResult_untracedResult, untraced_completion])
    | pending | lost => exact state_fail hs

lemma poll_untraced (o : Outcome) : o.untraced.poll = (o.poll.1.untraced, o.poll.2.untraced) := by
  obtain ⟨sent, gone, settled⟩ := o
  cases settled <;> cases sent <;> cases gone <;> rfl

lemma state_look (hp : e.place ctx' = e.place ctx) :
    e.state ((e.state s).look p limit until_ span' ctx') = e.state (s.look p limit until_ span ctx) := by
  have hover : (e.state s).isOver until_ = s.isOver until_ := rfl
  unfold look
  rw [outcome?_state, hover]
  cases s.outcome? p with
  | none => exact state_answered (a := .lost) (e.state_state s)
  | some r =>
    simp only [Option.map_some, poll_untraced]
    obtain ⟨a, o⟩ := r.1.poll
    cases a with
    | ready r =>
      simp only [Answer.untraced, setOutcome_state]
      exact state_answered (a := .ready r) (e.state_state _)
    | lost =>
      simp only [Answer.untraced, setOutcome_state]
      exact state_answered (a := .lost) (e.state_state _)
    | pending =>
      simp only [Answer.untraced, setOutcome_state]
      split
      · exact state_answered (a := .pending) (e.state_state _)
      · exact state_wait (e.state_state _) (by simp [wait, hp])

lemma getElem?_channels_state : (e.state s).world.channels[id]? = s.world.channels[id]?.map untracedValues :=
  Array.getElem?_map

lemma getElem?_coChannels_state :
    (e.state s).world.coChannels[id]? = s.world.coChannels[id]?.map untracedValues := Array.getElem?_map

lemma state_receive : e.state ((e.state s).receive id until_) = e.state (s.receive id until_) := by
  have hwait : e.state
        (if (e.state s).isOver until_ then (e.state s).value .nil else (e.state s).wait (.channel id until_)) =
      e.state (if s.isOver until_ then s.value .nil else s.wait (.channel id until_)) := by
    have hover : (e.state s).isOver until_ = s.isOver until_ := rfl
    rw [hover]
    split <;> exact state_of_eq rfl
  unfold receive
  rw [getElem?_channels_state]
  cases s.world.channels[id]? with
  | none => exact hwait
  | some queue => cases queue with
    | nil => exact hwait
    | cons v rest =>
      refine state_value (state_of_eq ?_) (Value.untraced_untraced v)
      simp [state, world]

lemma state_receiveCo (hp : e.place ctx' = e.place ctx) :
    e.state ((e.state s).receiveCo id span' ctx') = e.state (s.receiveCo id span ctx) := by
  have hwait : e.state ((e.state s).wait (.coChannel id span' ctx')) = e.state (s.wait (.coChannel id span ctx)) :=
    state_wait (e.state_state s) (by simp [wait, hp])
  unfold receiveCo
  rw [getElem?_coChannels_state]
  cases s.world.coChannels[id]? with
  | none => exact hwait
  | some queue => cases queue with
    | nil => exact hwait
    | cons v rest =>
      refine state_value (state_of_eq ?_) (Value.untraced_untraced v)
      simp [state, world]

lemma state_heeding {ready ready' : State → State} (hr : e.state (ready' (e.state s)) = e.state (ready s)) :
    e.state ((e.state s).heeding span' ctx' ready') = e.state (s.heeding span ctx ready) := by
  unfold heeding
  rw [interruption?_state]
  cases s.interruption? with
  | some f => exact fails
  | none => exact hr

lemma isSettled_untraced (o : Outcome) : o.untraced.isSettled = (o.isSettled.1, o.isSettled.2.untraced) := by
  simp only [Outcome.isSettled, poll_untraced]
  obtain ⟨a, o⟩ := o.poll
  cases a <;> rfl

lemma state_retry {w : Wait} : e.state ((e.state s).retry (e.wait w)) = e.state (s.retry w) := by
  have hs := e.state_state s
  cases w with
  | moment time span ctx =>
    refine state_heeding ?_
    have hover : (e.state s).isOver time = s.isOver time := rfl
    simp only [hover]
    split
    · exact state_value hs rfl
    · exact state_wait hs (e.wait_wait _)
  | coChannel id span ctx => exact state_heeding (state_receiveCo (e.place_place ctx))
  | background r span ctx =>
    exact state_heeding (state_finish hs (by rw [ofResult_untracedResult, untraced_completion]))
  | channel id until_ => exact state_receive
  | turn p limit span ctx =>
    have hlook := @state_look e s p limit (s.endOf limit) span (.point 0) ctx _ (e.place_place ctx)
    have hend : (e.state s).endOf limit = s.endOf limit := rfl
    simp only [retry, wait, outcome?_state, hend]
    cases s.outcome? p with
    | none => exact hlook
    | some r =>
      obtain ⟨o, watched⟩ := r
      cases watched with
      | true => exact state_wait hs (e.wait_wait (.turn p limit span ctx))
      | false => exact hlook
  | outcome p limit until_ span ctx => exact state_look (e.place_place ctx)
  | query p =>
    simp only [retry, wait, outcome?_state]
    cases s.outcome? p with
    | none => exact state_value hs rfl
    | some r =>
      obtain ⟨o, watched⟩ := r
      cases watched with
      | true => exact state_wait hs rfl
      | false =>
        simp only [Option.map_some, isSettled_untraced, setOutcome_state]
        cases p <;> exact state_of_eq rfl
  | drained pool =>
    simp only [retry, wait, isDrained_state]
    split
    · exact state_value hs rfl
    · exact state_wait hs rfl

lemma wakeTime?_state {now : Nat} {w : Wait} : (e.state s).wakeTime? now (e.wait w) = s.wakeTime? now w := by
  cases w with
  | moment time span ctx | background r span ctx => simp only [wakeTime?, wait, isCancelled_state]; rfl
  | coChannel id span ctx =>
    simp only [wakeTime?, wait, isCancelled_state, getElem?_coChannels_state]
    cases s.world.coChannels[id]? with
    | none => rfl
    | some queue => cases queue <;> rfl
  | channel id until_ =>
    simp only [wakeTime?, wait, getElem?_channels_state]
    cases s.world.channels[id]? with
    | none => rfl
    | some queue => cases queue <;> rfl
  | turn p limit span ctx | query p =>
    simp only [wakeTime?, wait, outcome?_state]
    cases s.outcome? p with
    | none => rfl
    | some r =>
      obtain ⟨o, watched⟩ := r
      cases watched <;> rfl
  | outcome p limit until_ span ctx =>
    simp only [wakeTime?, wait, outcome?_state]
    cases s.outcome? p with
    | none => rfl
    | some r =>
      simp only [Option.map_some, poll_untraced]
      obtain ⟨a, o⟩ := r.1.poll
      cases a <;> rfl
  | drained pool => simp only [wakeTime?, wait, isDrained_state]; rfl

lemma state_nextJob {pool : Nat} : e.state ((e.state s).nextJob pool) = e.state (s.nextJob pool) := by
  have hs := e.state_state s
  unfold nextJob
  rw [getElem?_pools_state]
  cases s.world.pools[pool]? with
  | none => exact state_value hs rfl
  | some p =>
    have hqueue : (e.pool p).queue = p.queue.map e.job := rfl
    simp only [Option.map_some, hqueue]
    cases p.queue with
    | nil => exact state_value (state_setPool hs (by simp [Erasure.pool])) rfl
    | cons j rest =>
      have hset : e.state ((e.state s).setPool pool { e.pool p with queue := rest.map e.job }) =
          e.state (s.setPool pool { p with queue := rest }) :=
          state_setPool hs (by simp [Erasure.pool, Function.comp_def])
      have htask := @task_jobTask e (s.setPool pool { p with queue := rest })
        ((e.state s).setPool pool { e.pool p with queue := rest.map e.job }) pool j rfl
      exact congrArg₂ State.mk (congrArg State.world hset)
        (congrArg (fun t : Task => { t with clock := s.task.clock }) htask)

end waits

section perform

variable {v : Value} {queues : Array (List Value)} {b : Builtin} {inv : Invocation}

lemma states_guarded {f f' : Frame} {first : Nat} (hf : e.frame f' = e.frame f) :
    e.states ((e.state s).guarded (e.invocation inv) f' first) = e.states (s.guarded inv f first) := by
  simp only [guarded, callable_invocation, items_invocation, entries_invocation, heap_state]
  refine states_bind_map fun callee => states_bind_map fun args => states_bind_map fun kwargs => states_ok ?_
  refine state_call (state_push (state_push (e.state_state s) hf) ?_) (by simp) (by simp) (by simp)
    (e.place_place inv.ctx)
  simp [frame, invocation]

lemma states_finallyCall : e.Blind s inv finallyCall := by
  simp only [Blind, finallyCall, callable_invocation]
  refine states_bind_map fun callee => states_bind_map fun final => states_guarded ?_
  simp [frame, invocation]

lemma states_sleep : e.Blind s inv sleep := by
  simp only [Blind, sleep, number_invocation, after_state]
  refine states_bind fun x => ?_
  cases Number.nanosOfSeconds? x with
  | none => rfl
  | some limit => exact states_ok (state_wait (e.state_state s) (by simp [wait, invocation]))

lemma states_asyncSleep : e.Blind s inv asyncSleep := by
  simp only [Blind, asyncSleep, seconds_invocation, after_state]
  exact states_bind fun limit => states_ok (state_newCoroutine (e.state_state s) rfl)

lemma isCoroutine_untraced (v : Value) : isCoroutine v.untraced = isCoroutine v := by cases v <;> rfl

lemma states_gather : e.Blind s inv gather := by
  simp only [Blind, gather, items_invocation, heap_state, wrong_invocation]
  refine states_bind_map fun members => ?_
  have hall : (untracedValues members).all isCoroutine = members.all isCoroutine := by
    simp [isCoroutine_untraced, Function.comp_def]
  rw [hall]
  split
  · exact states_ok (@state_gatherNext e s inv.ctx _ _ _ [] members (e.place_place inv.ctx))
  · rfl

lemma states_timeout : e.Blind s inv timeout := by
  simp only [Blind, timeout, typed_invocation, seconds_invocation, withDeadline_state]
  exact states_bind fun coroutine => states_bind fun limit => states_ok (state_drive (e.place_place inv.ctx))

lemma states_cancel : e.Blind s inv cancel := by
  simp only [Blind, cancel, typed_invocation]
  refine states_bind fun number => states_ok (state_value (state_of_eq ?_) rfl)
  have hthreads : (s.world.threads.map thread).modify number ({ · with cancelled := true }) =
      (s.world.threads.modify number ({ · with cancelled := true })).map thread := modify_map fun _ => rfl
  exact congrArg (fun threads => { e.state s with world := { e.world s.world with threads } }) hthreads

lemma modify_queue {id : Nat} :
    (queues.map untracedValues).modify id (· ++ [v.untraced]) = (queues.modify id (· ++ [v])).map untracedValues :=
  modify_map fun _ => by simp

lemma states_send : e.Blind s inv send := by
  simp only [Blind, send, typed_invocation, arg_invocation]
  refine states_bind fun id => states_ok (state_value (state_of_eq ?_) rfl)
  exact congrArg (fun channels => { e.state s with world := { e.world s.world with channels } }) modify_queue

lemma states_sendCo : e.Blind s inv sendCo := by
  simp only [Blind, sendCo, typed_invocation, arg_invocation]
  refine states_bind fun id => states_ok (state_value (state_of_eq ?_) rfl)
  exact congrArg (fun coChannels => { e.state s with world := { e.world s.world with coChannels } }) modify_queue

lemma isEmptyAt_map {id : Nat} : isEmptyAt (queues.map untracedValues) id = isEmptyAt queues id := by
  have hget : (queues.map untracedValues).getD id [] = untracedValues (queues.getD id []) := getD_map rfl
  rw [isEmptyAt, hget, isEmpty_map, isEmptyAt]

lemma length?_untraced {h : Heap} : Convert.length? h.untraced v.untraced = Convert.length? h v := by
  have hlength {v : Value} : ((h.untraced.items? v.untraced).map List.length).or
        ((h.untraced.entries? v.untraced).map List.length) =
      ((h.items? v).map List.length).or ((h.entries? v).map List.length) := by
    rw [Heap.items?_untraced, Heap.entries?_untraced, Option.map_map, Option.map_map]
    cases h.items? v with
    | some items => simp
    | none => cases h.entries? v with
      | some entries => simp
      | none => rfl
  cases v with
  | str text | bytes bs => rfl
  | list items => exact @hlength (.list items)
  | map entries => exact @hlength (.map entries)
  | sharedList cell => exact @hlength (.sharedList cell)
  | sharedMap cell => exact @hlength (.sharedMap cell)
  | _ => rfl

lemma convert_untraced : Convert.toInt? v.untraced = Convert.toInt? v ∧
    Convert.toFloat? v.untraced = Convert.toFloat? v ∧ Convert.toDecimal? v.untraced = Convert.toDecimal? v := by
  cases v <;> exact ⟨rfl, rfl, rfl⟩

lemma states_perform : e.Blind s inv perform := by
  have hs := e.state_state s
  have hbuiltin : (e.invocation inv).builtin = inv.builtin := rfl
  unfold Blind perform
  rw [hbuiltin]
  cases inv.builtin with
  | print | println =>
    simp only [heap_state, arg_invocation, Heap.text_untraced, print_state]
    exact states_ok (state_value (e.state_state _) rfl)
  | input => exact states_ok state_input
  | type =>
    simp only [arg_invocation, Value.tag_untraced]
    exact states_ok (gives rfl)
  | len =>
    simp only [heap_state, arg_invocation, length?_untraced]
    cases Convert.length? s.world.heap (inv.arg 0) with
    | none => rfl
    | some n => exact states_ok (gives rfl)
  | isNone =>
    simp only [arg_invocation, Value.isNil_untraced]
    exact states_ok (gives rfl)
  | toStr =>
    simp only [heap_state, arg_invocation, Heap.text_untraced]
    exact states_ok (gives rfl)
  | toInt | toFloat | toDecimal =>
    simp only [arg_invocation, convert_untraced]
    exact states_convert
  | toBytes => exact states_bytesOf
  | fromBytes => exact states_textOf
  | keys | values =>
    simp only [heap_state, entries_invocation]
    exact states_bind_map fun entries => states_ok (gives (by simp))
  | append =>
    simp only [heap_state, items_invocation, arg_invocation]
    refine states_bind_map fun items => states_ok ?_
    have happend : untracedValues items ++ [(inv.arg 1).untraced] = untracedValues (items ++ [inv.arg 1]) := by simp
    rw [happend]
    exact state_withItems
  | extend =>
    simp only [heap_state, items_invocation, arg_invocation]
    refine states_bind_map fun items => states_bind_map fun others => states_ok ?_
    rw [← map_append]
    exact state_withItems
  | pop => exact states_pop
  | range => exact states_range
  | catch_ | isPanic => exact states_guarded rfl
  | finally_ => exact states_finallyCall
  | setReusable => exact states_setShared
  | sleep => exact states_sleep
  | timeNow => exact states_ok (gives rfl)
  | asyncSleep => exact states_asyncSleep
  | gather => exact states_gather
  | timeout => exact states_timeout
  | threadStart => exact states_threadStart
  | threadJoin | futureResult =>
    simp only [typed_invocation, seconds?_invocation]
    exact states_bind fun number => states_bind fun limit => states_ok (state_wait hs (by simp [wait, invocation]))
  | threadIsAlive | futureDone =>
    simp only [typed_invocation]
    exact states_bind fun number => states_ok (state_wait hs rfl)
  | threadCancel => exact states_cancel
  | threadPoolNew => exact states_newPool
  | threadPoolSubmit => exact states_submit
  | threadPoolShutdown => exact states_shutdown
  | channelNew | coChannelNew =>
    refine states_ok (state_value (state_of_eq ?_) ?_)
    · simp [state, world]
    · simp [state, world, Value.untraced]
  | channelSend => exact states_send
  | channelReceive =>
    simp only [typed_invocation, seconds?_invocation]
    exact states_bind fun id => states_bind fun limit => states_ok (state_wait hs rfl)
  | channelIsEmpty | coChannelIsEmpty =>
    simp only [typed_invocation]
    refine states_bind fun id => states_ok (gives ?_)
    exact congrArg Value.bool isEmptyAt_map
  | coChannelSend => exact states_sendCo
  | coChannelReceive =>
    simp only [typed_invocation]
    exact states_bind fun id => states_ok (state_newCoroutine hs (by simp [work, invocation]))
  | open_ => exact states_openFile
  | readFile =>
    simp only [typed_invocation, readFile_state]
    exact states_bind fun path => states_bind fun v => states_ok (gives rfl)
  | writeFile =>
    simp only [typed_invocation, writeFile_state]
    exact states_bind fun path => states_bind fun text => states_states
  | fileExists =>
    simp only [typed_invocation]
    exact states_bind fun path => states_ok (gives rfl)
  | readFileAsync =>
    simp only [typed_invocation, readFile_state]
    exact states_bind fun path => states_ok (state_inBackground hs rfl)
  | writeFileAsync =>
    simp only [typed_invocation]
    exact states_bind fun path => states_bind fun text => states_ok state_writeInBackground

lemma params_data (b : Builtin) : ∀ param ∈ b.params, (param.2.getD .nil).untraced = param.2.getD .nil := by
  cases b <;> simp [Builtin.params, Builtin.required, Builtin.optional, Builtin.passedOn, Value.untraced]

lemma zipWith_defaults {bound : List (Option Value)} {params : List (String × Option Value)}
    (h : ∀ param ∈ params, (param.2.getD .nil).untraced = param.2.getD .nil) :
    (bound.map (Option.map Value.untraced)).zipWith (fun v param => v.getD (param.2.getD .nil)) params =
      untracedValues (bound.zipWith (fun v param => v.getD (param.2.getD .nil)) params) := by
  induction bound generalizing params with
  | nil => rfl
  | cons v bound ih => cases params with
    | nil => rfl
    | cons param params =>
      obtain ⟨hfirst, hrest⟩ := forall_mem_cons.1 h
      rw [map_cons, zipWith_cons_cons, zipWith_cons_cons, ih hrest]
      cases v with
      | none => exact congrArg (· :: _) hfirst.symm
      | some v => rfl

lemma bind_untraced {args : List Value} {kwargs : Dict Value} :
    b.bind (untracedValues args) (untracedDict kwargs) = (b.bind args kwargs).map untracedValues := by
  simp only [Builtin.bind, bindArguments_untraced]
  generalize bindArguments b.name _ args kwargs = bound
  cases bound with
  | error f => rfl
  | ok bound => exact congrArg Except.ok (zipWith_defaults (params_data b))

lemma states_perform_of_eq {inv' : Invocation} (hi : e.invocation inv' = e.invocation inv) :
    e.states ((e.state s).perform inv') = e.states (s.perform inv) := by
  have hperform := @states_perform e (e.state s) inv'
  rw [Blind, state_state, hi, states_perform] at hperform
  exact hperform.symm

variable {args : List Value} {kwargs : Dict Value} {span span' : Span} {ctx ctx' : Context}

lemma state_callBuiltin (hp : e.place ctx' = e.place ctx) :
    e.state ((e.state s).callBuiltin b (untracedValues args) (untracedDict kwargs) span' ctx') =
      e.state (s.callBuiltin b args kwargs span ctx) := by
  unfold callBuiltin
  rw [bind_untraced]
  cases b.bind args kwargs with
  | error f => exact fails
  | ok bound =>
    -- Each run may fail or go on, but both do the same.
    have hperform : e.states ((e.state s).perform ⟨b, untracedValues bound, span', ctx'⟩) =
        e.states (s.perform ⟨b, bound, span, ctx⟩) := states_perform_of_eq (by simp [invocation, hp])
    simp only [Except.map]
    cases h : (e.state s).perform ⟨b, untracedValues bound, span', ctx'⟩ with
    | error f => cases h' : s.perform ⟨b, bound, span, ctx⟩ with
      | error f' =>
        obtain rfl : f = f' := by simpa [h, h', Except.map] using hperform
        exact fails
      | ok next => simp [h, h', Except.map] at hperform
    | ok next => cases h' : s.perform ⟨b, bound, span, ctx⟩ with
      | error f => simp [h, h', Except.map] at hperform
      | ok next' => simpa [h, h', Except.map] using hperform

lemma state_enterCall {callee : Value} (hp : e.callPlace callee ctx' = e.callPlace callee ctx) :
    e.state ((e.state s).enterCall callee.untraced (untracedValues args) (untracedDict kwargs) span' ctx') =
      e.state (s.enterCall callee args kwargs span ctx) := by
  cases callee with
  | function id closure => exact state_callFunction
  | builtin b => exact state_callBuiltin hp
  | _ => exact fails

end perform

end Erasure

end ScriptMachine
