import ScriptMachine.Proofs.Policy.Values

/-! What a policy says of a state as a task changes it, and calls of functions and coroutines under it. -/

namespace ScriptMachine

open List

namespace Policy

open Contents

variable {P : Policy} {base : List Frame} {s : State}

namespace Holds

variable {c : Closure} {p : Producer} {o : Outcome} {watched : Bool} {inner : Context} {ctx : Context} {span : Span}
  {name : String} {v : Value} (h : P.Holds base s)
include h

lemma finish {c : Completion} (hc : P.completion c) : P.Ready base (s.finish c) := ⟨⟨h.world, h.tables, h.stack⟩, hc⟩

lemma value (hv : P.value v) : P.Ready base (s.value v) := h.finish hv

lemma ofResult {r : Result} (hr : P.result r) : P.Ready base (s.finish (.ofResult r)) := by
  cases r with
  | ok v => exact h.value hr
  | error f => exact h.finish hr

lemma eval {n : Node} (hn : P.code n ctx) : P.Ready base (s.eval n ctx) := ⟨⟨h.world, h.tables, h.stack⟩, hn⟩

lemma call {callee : Value} {args : List Value} {kwargs : Dict Value} (hv : P.values (callee :: args))
    (hk : P.entries kwargs) (hp : P.place span ctx) : P.Ready base (s.call callee args kwargs span ctx) :=
  ⟨⟨h.world, h.tables, h.stack⟩, hv, hk, hp⟩

lemma wait {w : Wait} (hw : P.wait w) : P.Ready base (s.wait w) := ⟨⟨h.world, h.tables, h.stack⟩, hw⟩

lemma push {f : Frame} (hf : P.frame f) : P.Holds base (s.push f) := by
  obtain ⟨inner, hstack, hinner⟩ := h.stack
  refine ⟨h.world, h.tables, f :: inner, congrArg (f :: ·) hstack, ?_⟩
  exact forall_mem_cons.2 ⟨.inl hf, hinner⟩

lemma setHeap {x : Heap} (hx : P.heap x) : P.Holds base (s.setHeap x) :=
    ⟨{ h.world with heap := hx }, h.tables, h.stack⟩

lemma setTables {t : Tables} (ht : P.tables t) (hb : P.bindings t) : P.Holds base (s.setTables t) :=
  ⟨{ h.world with bindings := hb }, ht, h.stack⟩

lemma nest {lexical : Context} {parent : Option Context}
    (ht : P.tables (Context.nest name lexical parent span s.world.tables).2) :
    P.Holds base (s.onTables (Context.nest name lexical parent span)).2 := by
  have hb : P.bindings (Context.nest name lexical parent span s.world.tables).2 := bindings_nest h.world.bindings
  exact h.setTables ht hb

lemma lookup (hv : s.lookup ctx name = some v) : P.value v := value_of_lookup h.world.bindings hv

lemma print {text : String} : P.Holds base (s.print text) := ⟨{ h.world with }, h.tables, h.stack⟩

lemma coroutine {work : Work} (hw : P.work work) :
    P.Ready base ((s.newCoroutine name work).2.value (s.newCoroutine name work).1) :=
  Holds.value ⟨{ h.world with coroutines := forall_mem_push h.world.coroutines hw }, h.tables, h.stack⟩ trivial

lemma setCoroutine {id : Nat} {c : Coroutine} (hc : P.coroutine c) : P.Holds base (s.setCoroutine id c) :=
  ⟨{ h.world with coroutines := forall_mem_set h.world.coroutines hc }, h.tables, h.stack⟩

lemma spawn {t : Task} (ht : P.starting t) : P.Holds base (s.spawn t) := by
  refine ⟨{ h.world with born := ?_ }, h.tables, h.stack⟩
  intro t' ht'
  rcases mem_append.1 ht' with ht' | ht'
  · exact h.world.born t' ht'
  · exact mem_singleton.1 ht' ▸ ht

lemma setPool {id : Nat} {p : Pool} (hp : ∀ j ∈ p.queue, P.job j) : P.Holds base (s.setPool id p) :=
  ⟨{ h.world with pools := forall_mem_set h.world.pools hp }, h.tables, h.stack⟩

lemma outcome (ho : s.outcome? p = some (o, watched)) : P.outcome o := by
  cases p with
  | thread number =>
    obtain ⟨t, ht, heq⟩ := Option.map_eq_some_iff.1 ho
    cases heq
    exact h.world.threads t (Array.mem_of_getElem? ht)
  | future id =>
    obtain ⟨f, hf, heq⟩ := Option.map_eq_some_iff.1 ho
    cases heq
    exact h.world.futures f (Array.mem_of_getElem? hf)

lemma setOutcome (ho : P.outcome o) : P.Holds base (s.setOutcome p o watched) := by
  cases p with
  | thread number =>
    have hthreads : ∀ t ∈ s.world.threads.modify number ({ · with outcome := o, watched }), P.outcome t.outcome :=
      forall_mem_modify h.world.threads fun _ _ => ho
    exact ⟨{ h.world with threads := hthreads }, h.tables, h.stack⟩
  | future id =>
    have hfutures : ∀ f ∈ s.world.futures.modify id ({ · with outcome := o, watched }), P.outcome f.outcome :=
      forall_mem_modify h.world.futures fun _ _ => ho
    exact ⟨{ h.world with futures := hfutures }, h.tables, h.stack⟩

variable (L : P.Lawful)
include L

lemma fail {f : Fault} (hp : P.place span ctx) : P.Ready base (s.fail f span ctx) :=
  h.finish (L.failure hp)

lemma assign (hb : P.binds name ctx) (hv : P.value v) : P.Holds base (s.assign ctx name v) :=
  h.setTables (L.assign hb h.tables) (bindings_set (bindings_set h.world.bindings hv) hv)

lemma enterBody (hbody : P.unit c.routine.body inner) : P.Ready base (s.enterBody c inner) := by
  unfold State.enterBody
  split
  · exact h.fail L (L.span (L.run hbody))
  · have hpush : P.Holds base (s.push (.functionBody c inner)) := h.push hbody
    exact ⟨⟨hpush.world, hpush.tables, hpush.stack⟩, L.run hbody⟩

omit h in
lemma bindParams (he : P.Entered c inner) {bound : List (Param × Option Value)}
    (hb : ∀ e ∈ bound, e.1 ∈ c.routine.params ∧ ∀ v ∈ e.2, P.value v) (h : P.Holds base s) :
    P.Ready base (s.bindParams c inner bound) := by
  fun_induction State.bindParams s c inner bound with
  | case1 s hasync v s' hnew =>
    have hwork : P.work (.call c inner) := he.deferred hasync
    have hready : P.Ready base ((s.newCoroutine c.name (.call c inner)).2.value _) := h.coroutine hwork
    rwa [hnew] at hready
  | case2 s hsync => exact h.enterBody L he.body
  | case3 s param v rest ih =>
    obtain ⟨hmem, hv⟩ := hb _ (.head _)
    exact ih (fun e hrest => hb e (.tail _ hrest)) (h.assign L (he.binds _ hmem) (hv v rfl))
  | case4 s name node rest =>
    obtain ⟨hmem, -⟩ := hb _ (.head _)
    have hnode : P.unit node c.context := L.default he.closure hmem
    have hframe : P.frame (.default c inner name node rest) :=
      ⟨he, hnode, he.binds _ hmem, fun e hrest => hb e (.tail _ hrest)⟩
    exact (h.push hframe).eval (L.run hnode)
  | case5 s param rest hopt ih =>
    obtain ⟨hmem, -⟩ := hb _ (.head _)
    exact ih (fun e hrest => hb e (.tail _ hrest)) (h.assign L (he.binds _ hmem) trivial)

lemma callFunction {args : List Value} {kwargs : Dict Value} (hc : P.closure c) (ha : P.values args)
    (hk : P.entries kwargs) (hp : P.place span ctx) : P.Ready base (s.callFunction c args kwargs span ctx) := by
  unfold State.callFunction
  dsimp only
  split
  · exact h.fail L hp
  · rename_i bound hbound
    obtain ⟨htables, hentered⟩ := L.enter hc hp h.tables
    have hvalues := gives_bindArguments ha hk bound hbound
    refine bindParams L hentered (fun e he => ?_) (h.nest htables)
    have hmem := of_mem_zip he
    exact ⟨hmem.1, hvalues e.2 hmem.2⟩

lemma drive {id : Nat} (hp : P.place span ctx) : P.Ready base (s.drive id name span ctx) := by
  unfold State.drive
  split
  · rename_i work hwork
    have hw : P.work work := h.world.coroutines _ (Array.mem_of_getElem? hwork)
    have hrunning : P.coroutine .running := trivial
    have hpush : P.Holds base ((s.setCoroutine id .running).push (.memoize id)) :=
      (h.setCoroutine hrunning).push trivial
    cases work with
    | call c inner => exact hpush.enterBody L (L.drive hw)
    | receive id span ctx => exact hpush.wait hw
    | background r => exact hpush.wait ⟨hw, hp⟩
    | timer time => exact hpush.wait hp
  · rename_i r hr
    have hresult : P.result r := h.world.coroutines _ (Array.mem_of_getElem? hr)
    exact h.ofResult hresult
  · exact h.fail L hp

lemma settled (hv : P.value v) (hp : P.place span ctx) : P.Ready base (s.settled v span ctx) := by
  unfold State.settled
  split
  · exact h.drive L hp
  · exact h.value hv

lemma gatherNext {done rest : List Value} (hd : P.values done) (hr : P.values rest)
    (hp : P.place span ctx) : P.Ready base (s.gatherNext done span ctx rest) := by
  cases rest with
  | nil => exact h.value (value_list.2 (values_reverse.2 hd))
  | cons c rest =>
    obtain ⟨hc, hrest⟩ := values_cons.1 hr
    exact Holds.settled (h.push (f := .gathered done rest span ctx) ⟨hd, hrest, hp⟩) L hc hp

end Holds

end Policy

end ScriptMachine
