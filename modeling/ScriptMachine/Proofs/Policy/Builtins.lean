import ScriptMachine.Proofs.Policy.Calls

/-! Calls of each built-in function under a policy, and the waits that they end in. -/

namespace ScriptMachine

open List

namespace Outcome

variable {o : Outcome}

lemma poll_of_forall {p : Result → Prop} (ho : (∀ r ∈ o.sent, p r) ∧ ∀ r ∈ o.settled, p r) :
    (∀ r, o.poll.1 = .ready r → p r) ∧ (∀ r ∈ o.poll.2.sent, p r) ∧ ∀ r ∈ o.poll.2.settled, p r := by
  unfold poll
  split
  · rename_i r hr
    exact ⟨fun r' heq => Answer.ready.inj heq ▸ ho.2 r hr, ho⟩
  · rename_i r _ hr
    have hresult : p r := ho.1 r hr
    refine ⟨fun r' heq => Answer.ready.inj heq ▸ hresult, ?_, fun r' hs => Option.some.inj hs ▸ hresult⟩
    exact fun r' hs => nomatch hs
  · refine ⟨fun r heq => ?_, ho⟩
    split at heq <;> contradiction

lemma isSettled_snd : o.isSettled.2 = o.poll.2 := by
  unfold isSettled
  split <;> simp_all

end Outcome

namespace Policy

open Contents

variable {pool : Nat} {o : Outcome} {P : Policy} {base : List Frame} {s : State}

structure invocation (P : Policy) (inv : Invocation) : Prop where
  args : P.values inv.args
  place : P.place inv.span inv.ctx

namespace invocation

variable {inv : Invocation} {i : Nat} {h : Heap} (hi : P.invocation inv)
include hi

lemma arg : P.value (inv.arg i) := values_getD hi.args

lemma callable : Gives P.value (inv.callable i) := .ite (.ok hi.arg) .error

lemma items (hh : P.heap h) : Gives P.values (inv.items h i) := by
  unfold Invocation.items
  split
  · rename_i items hitems
    exact .ok (items?_value hh hi.arg hitems)
  · exact .error

lemma entries (hh : P.heap h) : Gives P.entries (inv.entries h i) := by
  unfold Invocation.entries
  split
  · rename_i entries hentries
    exact .ok (entries?_value hh hi.arg hentries)
  · exact .error

end invocation

lemma gives_readFile {path : Path} : Gives P.value (s.readFile path) := by
  unfold State.readFile
  split
  · exact .ok trivial
  · exact .error

lemma starting_callTask {callee : Value} {args : List Value} {kwargs : Dict Value} {span : Span} {ctx : Context}
    {last : Frame} {thread : Option Nat} (hv : P.values (callee :: args)) (hk : P.entries kwargs)
    (hp : P.place span ctx) (hl : (∃ number, last = .threadEnd number) ∨ ∃ future pool, last = .jobEnd future pool) :
    P.starting (s.callTask callee args kwargs span ctx last thread) :=
  ⟨callee, args, kwargs, span, ctx, last, rfl, rfl, hv, hk, hp, hl⟩

lemma starting_jobTask {job : Job} (hj : P.job job) : P.starting (s.jobTask pool job) :=
  starting_callTask hj.1 hj.2.1 hj.2.2 (.inr ⟨_, _, rfl⟩)

lemma outcome_empty : P.outcome {} := by simp [Contents.outcome]

lemma outcome_poll (ho : P.outcome o) :
    (∀ r, o.poll.1 = .ready r → P.result r) ∧ P.outcome o.poll.2 := Outcome.poll_of_forall ho

lemma outcome_isSettled (ho : P.outcome o) : P.outcome o.isSettled.2 := by
  rw [Outcome.isSettled_snd]
  exact (outcome_poll ho).2

namespace Holds

variable {path : Path} {text : String} {inv : Invocation} (h : P.Holds base s) (hi : P.invocation inv)
include h hi

lemma input (L : P.Lawful) : P.Ready base (s.input inv) := by
  have hread (text : String) : P.Holds base { s with world := ((s.print text).world.readLine).2 } :=
    ⟨{ h.world with }, h.tables, h.stack⟩
  unfold State.input
  dsimp only
  split
  · exact (hread _).value trivial
  · exact (hread _).fail L hi.place

omit hi in
lemma convert {α : Type} {target : String} {wrap : α → Value} {r : Option α} (hw : ∀ a, P.value (wrap a)) :
    Gives (P.Ready base) (s.convert inv target wrap r) := by
  cases r with
  | none => exact .error
  | some a => exact .ok (h.value (hw a))

omit hi in
lemma bytesOf : Gives (P.Ready base) (s.bytesOf inv) := by
  unfold State.bytesOf
  split
  · exact .ok (h.value trivial)
  · exact .ok (h.value trivial)
  · split
    · split
      · exact .ok (h.value trivial)
      · exact .error
    · exact .error

omit hi in
lemma textOf : Gives (P.Ready base) (s.textOf inv) := by
  unfold State.textOf
  split
  · split
    · exact .ok (h.value trivial)
    · exact .error
  · exact .error

omit hi in
lemma operated {r : Value × Heap} (hr : P.operated r) : P.Ready base ((s.setHeap r.2).value r.1) :=
  (h.setHeap hr.2).value hr.1

omit hi in
lemma withItems {list : Value} {items : List Value} (hitems : P.values items) : P.Ready base (s.withItems list items) :=
  h.operated (operated_putItems h.world.heap hitems)

lemma pop : Gives (P.Ready base) (s.pop inv) := by
  refine .bind fun items hitems => .bind fun index _ => ?_
  have hvalues := hi.items h.world.heap items hitems
  cases position? index items.length with
  | none => exact .error
  | some p =>
    have hpopped : P.Ready base (s.withItems (inv.arg 0) (items.eraseIdx p)) := h.withItems (values_eraseIdx hvalues)
    exact .ok (hpopped.value (values_getD hvalues))

omit hi in
lemma range : Gives (P.Ready base) (s.range inv) := by
  have hvalue (numbers : List Int64) : P.value (.list (numbers.map .int)) := by
    refine value_list.2 fun v hv => ?_
    obtain ⟨n, -, rfl⟩ := mem_map.1 hv
    trivial
  unfold State.range
  -- Both ways to give the bounds go on in the same way.
  refine .ite (.bind fun stop _ => ?_) (.bind fun start _ => .bind fun stop _ => ?_)
  · exact .bind fun bounds _ => .bind fun step _ => .ite .error (.ok (h.value (hvalue _)))
  · exact .bind fun bounds _ => .bind fun step _ => .ite .error (.ok (h.value (hvalue _)))

lemma setShared : Gives (P.Ready base) (s.setShared inv) := by
  refine .bind fun shared _ => ?_
  split
  · rename_i items _ hitems
    have hvalues := items?_value h.world.heap hi.arg hitems
    exact .ite (.ok (h.operated (operated_allocList h.world.heap hvalues))) (.ok (h.value (value_list.2 hvalues)))
  · rename_i entries _ hentries
    have hvalues := entries?_value h.world.heap hi.arg hentries
    exact .ite (.ok (h.operated (operated_allocMap h.world.heap hvalues))) (.ok (h.value (value_map.2 hvalues)))
  · exact .error

omit hi in
lemma writeFile : Gives (P.Ready base) (s.writeFile path text) := by
  unfold State.writeFile
  split
  · exact .ok (Holds.value ⟨{ h.world with }, h.tables, h.stack⟩ trivial)
  · exact .error

lemma inBackground (L : P.Lawful) {r : Except Fault Value} (hr : Gives P.value r) :
    P.Ready base (s.inBackground inv r) := by
  cases r with
  | ok v =>
    have hwork : P.work (.background (.ok v)) := hr v rfl
    exact h.coroutine hwork
  | error f =>
    have hwork : P.work (.background (.error (f.at_ inv.span inv.ctx))) := L.failure hi.place
    exact h.coroutine hwork

lemma writeInBackground (L : P.Lawful) : P.Ready base (s.writeInBackground inv path text) := by
  unfold State.writeInBackground
  split
  · rename_i written hwritten
    have hready := h.writeFile written hwritten
    exact hready.inBackground hi L (.ok trivial)
  · exact h.inBackground hi L .error

lemma guarded {f : Frame} {first : Nat} (hf : P.frame f) : Gives (P.Ready base) (s.guarded inv f first) := by
  refine .bind fun callee hcallee => .bind fun args hargs => .bind fun kwargs hkwargs => .ok ?_
  have hpush : P.Holds base ((s.push f).push (.settle inv.span inv.ctx)) := (h.push hf).push hi.place
  refine hpush.call (values_cons.2 ⟨hi.callable callee hcallee, ?_⟩) ?_ hi.place
  · exact hi.items h.world.heap args hargs
  · exact hi.entries h.world.heap kwargs hkwargs

lemma finallyCall : Gives (P.Ready base) (s.finallyCall inv) := by
  refine .bind fun _ _ => .bind fun final hfinal => h.guarded hi ?_
  exact ⟨hi.callable final hfinal, hi.place⟩

lemma sleep : Gives (P.Ready base) (s.sleep inv) := by
  refine .bind fun x _ => ?_
  split
  · exact .ok (h.wait hi.place)
  · exact .error

omit hi in
lemma asyncSleep : Gives (P.Ready base) (s.asyncSleep inv) := by
  refine .bind fun limit _ => .ok ?_
  have hwork : P.work (.timer (s.after limit)) := trivial
  exact h.coroutine hwork

lemma gather (L : P.Lawful) : Gives (P.Ready base) (s.gather inv) := by
  refine .bind fun members hmembers => .ite (.ok ?_) .error
  exact h.gatherNext L values_nil (hi.items h.world.heap members hmembers) hi.place

lemma timeout (L : P.Lawful) : Gives (P.Ready base) (s.timeout inv) := by
  refine .bind fun coroutine _ => .bind fun limit _ => .ok ?_
  have hpush : P.Holds base (s.push (.restoreDeadline s.task.deadline)) := h.push trivial
  have hlimited : P.Holds base (s.withDeadline limit) := ⟨hpush.world, hpush.tables, hpush.stack⟩
  exact hlimited.drive L hi.place

omit hi in
lemma cancel : Gives (P.Ready base) (s.cancel inv) := by
  refine .bind fun number _ => .ok ?_
  have hthreads : ∀ t ∈ s.world.threads.modify number ({ · with cancelled := true }), P.outcome t.outcome :=
    forall_mem_modify h.world.threads fun _ ht => ht
  exact Holds.value ⟨{ h.world with threads := hthreads }, h.tables, h.stack⟩ trivial

lemma send : Gives (P.Ready base) (s.send inv) := by
  refine .bind fun id _ => .ok (Holds.value ⟨{ h.world with channels := ?_ }, h.tables, h.stack⟩ trivial)
  exact forall_mem_modify h.world.channels fun _ hv => values_append.2 ⟨hv, values_cons.2 ⟨hi.arg, values_nil⟩⟩

lemma sendCo : Gives (P.Ready base) (s.sendCo inv) := by
  refine .bind fun id _ => .ok (Holds.value ⟨{ h.world with coChannels := ?_ }, h.tables, h.stack⟩ trivial)
  exact forall_mem_modify h.world.coChannels fun _ hv => values_append.2 ⟨hv, values_cons.2 ⟨hi.arg, values_nil⟩⟩

lemma threadStart : Gives (P.Ready base) (s.threadStart inv) := by
  refine .bind fun callee hcallee => .bind fun args hargs => .bind fun kwargs hkwargs => .ok ?_
  have hvalues := values_cons.2 ⟨hi.callable callee hcallee, hi.items h.world.heap args hargs⟩
  have hentries := hi.entries h.world.heap kwargs hkwargs
  have hthreads := forall_mem_push h.world.threads (a := {}) outcome_empty
  have hgrown : P.Holds base { s with world := { s.world with threads := s.world.threads.push {} } } :=
    ⟨{ h.world with threads := hthreads }, h.tables, h.stack⟩
  exact (hgrown.spawn (starting_callTask hvalues hentries hi.place (.inl ⟨_, rfl⟩))).value trivial

omit hi in
lemma newPool : Gives (P.Ready base) (s.newPool inv) := by
  refine .bind fun workers _ => .ite .error
    (.ok (Holds.value ⟨{ h.world with pools := ?_ }, h.tables, h.stack⟩ trivial))
  exact forall_mem_push h.world.pools (forall_mem_nil _)

lemma submit : Gives (P.Ready base) (s.submit inv) := by
  refine .bind fun id _ => .bind fun callee hcallee => .bind fun args hargs => .bind fun kwargs hkwargs => ?_
  have hjob : P.job ⟨s.world.futures.size, callee, args, kwargs, inv.span, inv.ctx⟩ :=
    ⟨values_cons.2 ⟨hi.callable callee hcallee, hi.items h.world.heap args hargs⟩,
      hi.entries h.world.heap kwargs hkwargs, hi.place⟩
  have hfutures := forall_mem_push h.world.futures (a := {}) outcome_empty
  have hgrown : P.Holds base { s with world := { s.world with futures := s.world.futures.push {} } } :=
    ⟨{ h.world with futures := hfutures }, h.tables, h.stack⟩
  cases hpool : s.world.pools[id]? with
  | none => exact .error
  | some pool =>
    have hqueue := h.world.pools pool (Array.mem_of_getElem? hpool)
    refine .ite .error (.ok ?_)
    cases hidle : pool.idle with
    | zero =>
      refine (hgrown.setPool fun j hj => ?_).value trivial
      rcases mem_append.1 hj with hj | hj
      · exact hqueue j hj
      · exact mem_singleton.1 hj ▸ hjob
    | succ idle => exact ((hgrown.setPool (p := { pool with idle }) hqueue).spawn (starting_jobTask hjob)).value trivial

omit hi in
lemma closePool {id : Nat} : P.Holds base (match s.world.pools[id]? with
    | some pool => s.setPool id { pool with closed := true }
    | none => s) := by
  split
  · rename_i pool hpool
    exact h.setPool (h.world.pools pool (Array.mem_of_getElem? hpool))
  · exact h

omit hi in
lemma shutdown : Gives (P.Ready base) (s.shutdown inv) := by
  refine .bind fun id _ => .bind fun wait _ => .ok ?_
  cases wait with
  | true => exact h.closePool.wait trivial
  | false => exact h.closePool.value trivial

lemma perform (L : P.Lawful) : Gives (P.Ready base) (s.perform inv) := by
  obtain ⟨b, args, span, ctx⟩ := inv
  cases b with
  | print | println => exact .ok (h.print.value trivial)
  | input => exact .ok (h.input hi L)
  | type | isNone | toStr | timeNow => exact .ok (h.value trivial)
  | len =>
    unfold State.perform
    dsimp only
    split
    · exact .ok (h.value trivial)
    · exact .error
  | toInt | toFloat | toDecimal => exact h.convert fun _ => trivial
  | toBytes => exact h.bytesOf
  | fromBytes => exact h.textOf
  | keys =>
    refine .bind fun entries _ => .ok (h.value (value_list.2 fun v hv => ?_))
    obtain ⟨key, -, rfl⟩ := mem_map.1 hv
    trivial
  | values =>
    refine .bind fun entries hentries => .ok (h.value (value_list.2 ?_))
    exact entries_keys_values (hi.entries h.world.heap entries hentries)
  | append =>
    refine .bind fun items hitems => .ok (h.withItems (values_append.2 ⟨?_, ?_⟩))
    · exact hi.items h.world.heap items hitems
    · exact values_cons.2 ⟨hi.arg, values_nil⟩
  | extend =>
    refine .bind fun items hitems => .bind fun others hothers => .ok (h.withItems (values_append.2 ⟨?_, ?_⟩))
    · exact hi.items h.world.heap items hitems
    · exact hi.items h.world.heap others hothers
  | pop => exact h.pop hi
  | range => exact h.range
  | catch_ | isPanic => exact h.guarded hi trivial
  | finally_ => exact h.finallyCall hi
  | setReusable => exact h.setShared hi
  | sleep => exact h.sleep hi
  | asyncSleep => exact h.asyncSleep
  | gather => exact h.gather hi L
  | timeout => exact h.timeout hi L
  | threadStart => exact h.threadStart hi
  | threadJoin | futureResult => exact .bind fun _ _ => .bind fun _ _ => .ok (h.wait hi.place)
  | threadIsAlive | futureDone => exact .bind fun _ _ => .ok (h.wait trivial)
  | threadCancel => exact h.cancel
  | threadPoolNew => exact h.newPool
  | threadPoolSubmit => exact h.submit hi
  | threadPoolShutdown => exact h.shutdown
  | channelNew =>
    have hchannels := forall_mem_push h.world.channels (a := []) values_nil
    exact .ok (Holds.value ⟨{ h.world with channels := hchannels }, h.tables, h.stack⟩ trivial)
  | channelSend => exact h.send hi
  | channelReceive => exact .bind fun _ _ => .bind fun _ _ => .ok (h.wait trivial)
  | channelIsEmpty | coChannelIsEmpty | open_ | fileExists => exact .bind fun _ _ => .ok (h.value trivial)
  | coChannelNew =>
    have hchannels := forall_mem_push h.world.coChannels (a := []) values_nil
    exact .ok (Holds.value ⟨{ h.world with coChannels := hchannels }, h.tables, h.stack⟩ trivial)
  | coChannelSend => exact h.sendCo hi
  | coChannelReceive =>
    refine .bind fun id _ => .ok ?_
    have hwork : P.work (.receive id span ctx) := hi.place
    exact h.coroutine hwork
  | readFile => exact .bind fun path _ => .bind fun v hv => .ok (h.value (gives_readFile v hv))
  | writeFile => exact .bind fun _ _ => .bind fun _ _ => h.writeFile
  | readFileAsync => exact .bind fun path _ => .ok (h.inBackground hi L gives_readFile)
  | writeFileAsync => exact .bind fun _ _ => .bind fun _ _ => .ok (h.writeInBackground hi L)

omit hi in
lemma enterCall (L : P.Lawful) {callee : Value} {args : List Value} {kwargs : Dict Value} {span : Span} {ctx : Context}
    (hv : P.values (callee :: args)) (hk : P.entries kwargs) (hp : P.place span ctx) :
    P.Ready base (s.enterCall callee args kwargs span ctx) := by
  obtain ⟨hcallee, hargs⟩ := values_cons.1 hv
  cases callee with
  | function id c => exact h.callFunction L hcallee hargs hk hp
  | builtin b =>
    unfold State.enterCall State.callBuiltin
    dsimp only
    split
    · exact h.fail L hp
    · rename_i bound hbound
      split
      · exact h.fail L hp
      · rename_i after hafter
        exact h.perform ⟨gives_bind hargs hk bound hbound, hp⟩ L after hafter
  | _ => exact h.fail L hp

end Holds

namespace Holds

variable {ctx : Context} {span : Span} {p : Producer} {limit until_ : Option Nat} (h : P.Holds base s) (L : P.Lawful)
include h L

lemma answered {a : Answer} (ha : ∀ r, a = .ready r → P.result r) (hp : P.place span ctx) :
    P.Ready base (s.answered p limit span ctx a) := by
  unfold State.answered
  split
  · exact h.value (ha _ rfl)
  · exact h.value trivial
  · exact h.ofResult (ha _ rfl)
  · exact h.fail L hp
  · exact h.fail L hp

lemma look (hp : P.place span ctx) : P.Ready base (s.look p limit until_ span ctx) := by
  unfold State.look
  split
  · exact h.answered L (fun r hr => nomatch hr) hp
  · rename_i o watched ho
    obtain ⟨hready, houtcome⟩ := outcome_poll (h.outcome ho)
    split
    · rename_i o' hpoll
      rw [hpoll] at houtcome
      split
      · exact (h.setOutcome houtcome).answered L (fun r hr => nomatch hr) hp
      · exact (h.setOutcome houtcome).wait hp
    · rename_i a o' _ hpoll
      rw [hpoll] at hready houtcome
      exact (h.setOutcome houtcome).answered L hready hp

omit L in
lemma receive {id : Nat} : P.Ready base (s.receive id until_) := by
  unfold State.receive
  split
  · rename_i v rest hv
    obtain ⟨hfirst, hrest⟩ := values_cons.1 (h.world.channels _ (Array.mem_of_getElem? hv))
    exact Holds.value ⟨{ h.world with channels := forall_mem_set h.world.channels hrest }, h.tables, h.stack⟩ hfirst
  · split
    · exact h.value trivial
    · exact h.wait trivial

omit L in
lemma receiveCo {id : Nat} (hp : P.place span ctx) : P.Ready base (s.receiveCo id span ctx) := by
  unfold State.receiveCo
  split
  · rename_i v rest hv
    obtain ⟨hfirst, hrest⟩ := values_cons.1 (h.world.coChannels _ (Array.mem_of_getElem? hv))
    exact Holds.value ⟨{ h.world with coChannels := forall_mem_set h.world.coChannels hrest }, h.tables, h.stack⟩ hfirst
  · exact h.wait hp

lemma heeding {ready : State → State} (hp : P.place span ctx) (hr : P.Ready base (ready s)) :
    P.Ready base (s.heeding span ctx ready) := by
  unfold State.heeding
  split
  · exact h.fail L hp
  · exact hr

lemma retry {w : Wait} (hw : P.wait w) : P.Ready base (s.retry w) := by
  unfold State.retry
  cases w with
  | moment time span ctx =>
    refine h.heeding L hw ?_
    split
    · exact h.value trivial
    · exact h.wait hw
  | coChannel id span ctx => exact h.heeding L hw (h.receiveCo hw)
  | background r span ctx => exact h.heeding L hw.2 (h.ofResult hw.1)
  | channel id until_ => exact h.receive
  | turn p limit span ctx =>
    dsimp only
    split
    · exact h.wait hw
    · exact h.look L hw
  | outcome p limit until_ span ctx => exact h.look L hw
  | query p =>
    dsimp only
    split
    · exact h.wait hw
    · rename_i o ho
      have houtcome : P.outcome o.isSettled.2 := outcome_isSettled (h.outcome ho)
      cases p with
      | thread | future => exact (h.setOutcome houtcome).value trivial
    · exact h.value trivial
  | drained pool =>
    dsimp only
    split
    · exact h.value trivial
    · exact h.wait hw

end Holds

lemma task_of_starting {R : Rules} {t : Task} (ht : R.starting t) : R.task [] t := by
  obtain ⟨callee, args, kwargs, span, ctx, last, hcontrol, hstack, hv, hk, hp, hlast⟩ := ht
  have habove : R.above [] last := by
    rcases hlast with ⟨number, rfl⟩ | hlast
    · exact .inl trivial
    · exact .inr ⟨rfl, hlast⟩
  refine ⟨⟨t.stack, (append_nil _).symm, ?_⟩, ?_⟩
  · rw [hstack]
    simpa using ⟨Or.inl hp, habove⟩
  · rw [hcontrol]
    exact ⟨hv, hk, hp⟩

lemma Holds.nextJob (h : P.Holds [] s) : P.Ready [] (s.nextJob pool) := by
  unfold State.nextJob
  split
  · rename_i p hpool
    have hqueue := h.world.pools p (Array.mem_of_getElem? hpool)
    split
    · rename_i job rest hjobs
      rw [hjobs] at hqueue
      obtain ⟨hjob, hrest⟩ := forall_mem_cons.1 hqueue
      have hset : P.Holds [] (s.setPool pool { p with queue := rest }) := h.setPool hrest
      have hstart : P.starting ((s.setPool pool { p with queue := rest }).jobTask pool job) := starting_jobTask hjob
      have htask : P.task [] _ := task_of_starting hstart
      exact ⟨⟨hset.world, hset.tables, htask.1⟩, htask.2⟩
    · exact (h.setPool (p := { p with idle := p.idle + 1 }) hqueue).value trivial
  · exact h.value trivial

end Policy

end ScriptMachine
