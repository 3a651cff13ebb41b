import ScriptMachine.Proofs.Growth

/-! Duties to report. A frame that keeps the result of a coroutine, a frame that sends the result of a thread or a job,
and a job in a queue each stand for a result that is still to come. -/

namespace ScriptMachine

open List

attribute [local simp] World.outcome?

deriving instance DecidableEq for Producer

inductive Duty where
  | coroutine (id : Nat)
  | outcome (p : Producer)
deriving DecidableEq

def Frame.duty? : Frame → Option Duty
  | .memoize id => some (.coroutine id)
  | .threadEnd number => some (.outcome (.thread number))
  | .jobEnd future _ => some (.outcome (.future future))
  | _ => none

def Job.duty (j : Job) : Duty := .outcome (.future j.future)

def Task.duties (t : Task) : Multiset Duty := t.stack.filterMap Frame.duty?

namespace World

def queued (w : World) : Multiset Duty := (w.pools.toList.map Pool.queue).flatten.map Job.duty

def duties (w : World) : Multiset Duty := (w.born.map Task.duties).sum + w.queued

def isOpen (w : World) : Duty → Prop
  | .coroutine id => w.coroutines[id]? = some .running
  | .outcome p => ∃ o watched, w.outcome? p = some (o, watched) ∧ o.producerGone = false

structure InOrder (w : World) (ds : Multiset Duty) : Prop where
  nodup : ds.Nodup
  isOpen : ∀ d ∈ ds, w.isOpen d

variable {w w' : World} {ds ds' : Multiset Duty} {d : Duty}

lemma Grows.isOpen (h : w.Grows w') (hd : w.isOpen d) : w'.isOpen d := by
  cases d with
  | coroutine id => exact h.coroutine hd
  | outcome p =>
    obtain ⟨o, watched, ho, hgone⟩ := hd
    exact ⟨o, watched, h.outcome ho, hgone⟩

namespace InOrder

lemma mono (h : w.InOrder ds) (hle : ds' ≤ ds) : w.InOrder ds' :=
  ⟨Multiset.nodup_of_le hle h.nodup, fun d hd => h.isOpen d (Multiset.mem_of_le hle hd)⟩

lemma world (h : w.InOrder ds) (hw : ∀ d ∈ ds, w.isOpen d → w'.isOpen d) : w'.InOrder ds :=
  ⟨h.nodup, fun d hd => hw d hd (h.isOpen d hd)⟩

lemma grows (h : w.InOrder ds) (hw : w.Grows w') : w'.InOrder ds := h.world fun _ _ => hw.isOpen

lemma insert (h : w.InOrder ds) (hn : ¬ w.isOpen d) (hw : ∀ d, w.isOpen d → w'.isOpen d) (hd : w'.isOpen d) :
    w'.InOrder (d ::ₘ ds) := by
  refine ⟨Multiset.nodup_cons.2 ⟨fun hmem => hn (h.isOpen d hmem), h.nodup⟩, fun d' hd' => ?_⟩
  rcases Multiset.mem_cons.1 hd' with rfl | hd'
  · exact hd
  · exact hw d' (h.isOpen d' hd')

lemma discharge (h : w.InOrder (d ::ₘ ds)) (hw : ∀ d', d' ≠ d → w.isOpen d' → w'.isOpen d') : w'.InOrder ds := by
  obtain ⟨hmem, hnodup⟩ := Multiset.nodup_cons.1 h.nodup
  refine ⟨hnodup, fun d' hd' => hw d' ?_ (h.isOpen d' (Multiset.mem_cons_of_mem hd'))⟩
  rintro rfl
  exact hmem hd'

end InOrder

end World

lemma coe_flatten_set {α : Type} {xss : List (List α)} {i : Nat} {xs : List α} (h : xss[i]? = some xs) (ys : List α) :
    ((xss.set i ys).flatten : Multiset α) + xs = xss.flatten + ys := by
  induction xss generalizing i with
  | nil => contradiction
  | cons zs xss ih =>
    cases i with
    | zero =>
      obtain rfl : zs = xs := Option.some.inj h
      simp only [set_cons_zero, flatten_cons, ← Multiset.coe_add]
      abel
    | succ i =>
      have hrest := ih (i := i) h
      simp only [set_cons_succ, flatten_cons, ← Multiset.coe_add] at hrest ⊢
      rw [add_assoc, hrest, add_assoc]

namespace Outcome

lemma producerGone_poll (o : Outcome) : o.poll.2.producerGone = o.producerGone := by
  unfold poll
  split <;> rfl

lemma producerGone_isSettled (o : Outcome) : o.isSettled.2.producerGone = o.producerGone := by
  have hpoll := producerGone_poll o
  unfold isSettled
  split <;> simp_all

end Outcome

namespace State

variable {d : Duty} {s : State} {p p' : Producer} {o : Outcome} {watched : Bool}

lemma queued_setPool {id : Nat} {pool : Pool} (hp : s.world.pools[id]? = some pool) (pool' : Pool) :
    (s.setPool id pool').world.queued + (pool.queue.map Job.duty : List Duty) =
      s.world.queued + (pool'.queue.map Job.duty : List Duty) := by
  have hqueue : (s.world.pools.toList.map Pool.queue)[id]? = some pool.queue := by
    rw [getElem?_map, Array.getElem?_toList, hp]
    rfl
  have hset := congrArg (Multiset.map Job.duty) (coe_flatten_set hqueue pool'.queue)
  simp only [Multiset.map_add, Multiset.map_coe] at hset
  simpa only [World.queued, setPool, Array.toList_setIfInBounds, map_set] using hset

lemma outcome?_setOutcome {r : Outcome × Bool} (h : s.world.outcome? p = some r) :
    (s.setOutcome p o watched).world.outcome? p = some (o, watched) := by
  cases p with
  | thread number =>
    obtain ⟨t, ht, -⟩ := Option.map_eq_some_iff.1 h
    simp [setOutcome, Array.getElem?_modify, ht]
  | future id =>
    obtain ⟨f, hf, -⟩ := Option.map_eq_some_iff.1 h
    simp [setOutcome, Array.getElem?_modify, hf]

lemma outcome?_setOutcome_of_ne (h : p' ≠ p) : (s.setOutcome p o watched).world.outcome? p' = s.world.outcome? p' := by
  cases p with
  | thread number =>
    cases p' with
    | future => rfl
    | thread number' =>
      have hne : number ≠ number' := fun heq => h (heq ▸ rfl)
      simp [setOutcome, Array.getElem?_modify, hne]
  | future id =>
    cases p' with
    | thread => rfl
    | future id' =>
      have hne : id ≠ id' := fun heq => h (heq ▸ rfl)
      simp [setOutcome, Array.getElem?_modify, hne]

lemma coroutines_setOutcome : (s.setOutcome p o watched).world.coroutines = s.world.coroutines := by cases p <;> rfl

lemma isOpen_setOutcome {o' : Outcome} (h : s.world.outcome? p = some (o, watched))
    (ho : o'.producerGone = o.producerGone) {watched' : Bool} (hd : s.world.isOpen d) :
    (s.setOutcome p o' watched').world.isOpen d := by
  cases d with
  | coroutine id =>
    change (s.setOutcome p o' watched').world.coroutines[id]? = _
    rw [coroutines_setOutcome]
    exact hd
  | outcome q =>
    obtain ⟨oq, watchedq, hq, hgone⟩ := hd
    by_cases heq : q = p
    · subst heq
      obtain ⟨rfl, -⟩ := Prod.mk.inj (Option.some.inj (hq.symm.trans h))
      exact ⟨o', watched', outcome?_setOutcome h, ho.trans hgone⟩
    · exact ⟨oq, watchedq, (outcome?_setOutcome_of_ne heq).trans hq, hgone⟩

lemma isOpen_setOutcome_of_ne (hd : d ≠ .outcome p) (h : s.world.isOpen d) :
    (s.setOutcome p o watched).world.isOpen d := by
  cases d with
  | coroutine id =>
    change (s.setOutcome p o watched).world.coroutines[id]? = _
    rw [coroutines_setOutcome]
    exact h
  | outcome q =>
    obtain ⟨oq, watchedq, hq, hgone⟩ := h
    exact ⟨oq, watchedq, (outcome?_setOutcome_of_ne fun heq => hd (congrArg Duty.outcome heq)).trans hq, hgone⟩

lemma isOpen_setCoroutine_of_ne {id : Nat} {c : Coroutine} (hd : d ≠ .coroutine id) (h : s.world.isOpen d) :
    (s.setCoroutine id c).world.isOpen d := by
  cases d with
  | outcome q => exact h
  | coroutine id' =>
    have hne : id ≠ id' := fun heq => hd (heq ▸ rfl)
    change (s.world.coroutines.setIfInBounds id c)[id']? = _
    rw [Array.getElem?_setIfInBounds_ne hne]
    exact h

end State

namespace State

variable {span : Span} {ctx : Context} {name : String} {f : Frame} {id : Nat} {d : Duty} {ns : Namespace} {p : Producer}
  {rest : List Frame} {c : Completion} {limit : Option Nat} {L : Leeway} {s s' : State} {others : Multiset Duty}

def duties (s : State) : Multiset Duty := s.task.duties + s.world.duties

/-- What this task, the other tasks and what is queued owe is in order. -/
abbrev InOrder (s : State) (others : Multiset Duty) : Prop := s.world.InOrder (s.duties + others)

lemma duties_push (hf : f.duty? = none) : (s.push f).duties = s.duties := by
  have htask : (s.push f).task.duties = s.task.duties := by
    simp only [Task.duties, push, filterMap_cons_none hf]
  rw [duties, htask]
  rfl

lemma duties_push_of_duty (hf : f.duty? = some d) : (s.push f).duties = d ::ₘ s.duties := by
  have htask : (s.push f).task.duties = d ::ₘ s.task.duties := by
    simp only [Task.duties, push, filterMap_cons_some hf, Multiset.cons_coe]
  rw [duties, htask, Multiset.cons_add]
  rfl

lemma duties_spawn {t : Task} {last : Frame} (ht : t.Reports last) (hl : last.duty? = some d) :
    (s.spawn t).duties = d ::ₘ s.duties := by
  obtain ⟨span, ctx, hstack⟩ := ht.stack
  have htask : t.duties = {d} := by
    simp only [Task.duties, hstack, filterMap_cons_none (f := Frame.duty?) (a := .settle span ctx) rfl,
      filterMap_cons_some hl, filterMap_nil, Multiset.coe_singleton]
  have hborn : (s.spawn t).world.duties = d ::ₘ s.world.duties := by
    simp only [World.duties, spawn, map_append, map_cons, map_nil, sum_append, sum_singleton,
      htask, World.queued, ← Multiset.singleton_add]
    abel
  rw [duties, hborn, Multiset.add_cons]
  rfl

lemma Prepares.inOrder (h : s.Prepares L s') (ho : s.InOrder others) : s'.InOrder others := by
  induction h with
  | refl => exact ho
  | @share x w _ hw ih =>
    have hduties : State.duties ⟨w, x.task⟩ = x.duties := by
      simp only [duties, World.duties, World.queued, hw.born, hw.pools]
    rw [InOrder, hduties]
    exact ih.grows hw.grows
  | coroutine name work _ ih => exact ih.grows grows_newCoroutine
  | cancel number _ ih => exact ih.grows grows_cancelThread
  | @thread x t _ ht ih =>
    rw [InOrder, duties_spawn ht rfl, Multiset.cons_add]
    refine ih.insert ?_ (fun d => grows_addThread.isOpen) ⟨{}, false, ?_, rfl⟩
    · rintro ⟨o, watched, hnew, -⟩
      simp at hnew
    · simp [spawn, addThread]
  | @pool x p _ hp ih =>
    have hduties : (x.addPool p).duties = x.duties := by
      simp [duties, World.duties, World.queued, addPool, hp]
    rw [InOrder, hduties]
    exact ih.grows (.of_eq rfl rfl rfl rfl)
  | @tend x id p p' _ hpool hqueue ih =>
    have hqueued : (x.setPool id p').world.queued = x.world.queued := by
      have hset := queued_setPool hpool p'
      rw [hqueue] at hset
      exact add_right_cancel hset
    have hduties : (x.setPool id p').duties = x.duties := by
      rw [duties, World.duties, hqueued]
      rfl
    rw [InOrder, hduties]
    exact ih.grows (.of_eq rfl rfl rfl rfl)
  | @enqueue x id p job _ hpool hfuture ih =>
    have hqueued : (x.addFuture.setPool id { p with queue := p.queue ++ [job] }).world.queued =
        job.duty ::ₘ x.world.queued := by
      have hset := queued_setPool (s := x.addFuture) hpool { p with queue := p.queue ++ [job] }
      simp only [map_append, map_cons, map_nil, ← Multiset.coe_add, Multiset.coe_singleton] at hset
      rw [add_comm (p.queue.map Job.duty : Multiset Duty), ← add_assoc] at hset
      exact (add_right_cancel hset).trans (Multiset.add_comm _ _)
    have hduties : (x.addFuture.setPool id { p with queue := p.queue ++ [job] }).duties = job.duty ::ₘ x.duties := by
      rw [duties, World.duties, hqueued, Multiset.add_cons, Multiset.add_cons]
      rfl
    rw [InOrder, hduties, Multiset.cons_add]
    have hgrows : x.world.Grows (x.addFuture.setPool id { p with queue := p.queue ++ [job] }).world :=
      grows_addFuture.trans (.of_eq rfl rfl rfl rfl)
    refine ih.insert ?_ (fun d => hgrows.isOpen) ⟨{}, false, ?_, rfl⟩
    · rintro ⟨o, watched, hnew, -⟩
      simp [hfuture] at hnew
    · simp [setPool, addFuture, hfuture]
  | @employ x id p t p' _ hpool hqueue ht ih =>
    have hqueued : (x.addFuture.setPool id p').world.queued = x.world.queued := by
      have hset := queued_setPool (s := x.addFuture) hpool p'
      rw [hqueue] at hset
      exact add_right_cancel hset
    have hduties : (x.addFuture.setPool id p').duties = x.duties := by
      rw [duties, World.duties, hqueued]
      rfl
    rw [InOrder, duties_spawn ht rfl, hduties, Multiset.cons_add]
    have hgrows : x.world.Grows ((x.addFuture.setPool id p').spawn t).world :=
      grows_addFuture.trans (.of_eq rfl rfl rfl rfl)
    refine ih.insert ?_ (fun d => hgrows.isOpen) ⟨{}, false, ?_, rfl⟩
    · rintro ⟨o, watched, hnew, -⟩
      simp at hnew
    · simp [spawn, setPool, addFuture]
  | @push x f _ hf _ ih =>
    have hduty : f.duty? = none := by cases f <;> first | rfl | contradiction
    rw [InOrder, duties_push hduty]
    exact ih
  | keep _ _ ih =>
    rw [InOrder, duties_push rfl]
    exact ih
  | @enterModule x _ _ ih =>
    have hduties : x.enterModule.duties = (x.push .leaveModule).duties := rfl
    rw [InOrder, hduties, duties_push rfl]
    exact ih

lemma duties_enterBody {c : Closure} {inner : Context} : (s.enterBody c inner).duties = s.duties := by
  unfold enterBody
  dsimp only
  split
  · rfl
  · exact duties_push (f := .functionBody c inner) rfl

lemma Does.inOrder (h : s.Does L s') (ho : s.InOrder others) : s'.InOrder others := by
  cases h with
  | finish hx _ | call hx | wait hx => exact hx.inOrder ho
  | @eval x f n ctx hx hf _ _ | @enter x f n ctx hx hf _ =>
    have hduty : f.duty? = none := by cases f <;> first | rfl | contradiction
    have hduties : ((x.push f).eval n ctx).duties = x.duties := duties_push hduty
    rw [InOrder, hduties]
    exact hx.inOrder ho
  | body hx =>
    rw [InOrder, duties_enterBody, world_enterBody]
    exact hx.inOrder ho

lemma push_onto (hs : s.task.stack = f :: rest) : (s.onto rest).push f = s := by
  obtain ⟨w, t⟩ := s
  obtain ⟨control, stack, depth, deadline, thread, clock⟩ := t
  subst hs
  rfl

lemma duties_onto (hs : s.task.stack = f :: rest) (hf : f.duty? = none) : (s.onto rest).duties = s.duties := by
  rw [← duties_push hf, push_onto hs]

lemma duties_unwind : (s.unwind f c).duties = s.duties := by
  unfold unwind
  split
  all_goals first | rfl | (split <;> rfl)

lemma isOpen_unwind (hd : f.duty? ≠ some d) (h : s.world.isOpen d) : (s.unwind f c).world.isOpen d := by
  cases f with
  | memoize id => exact isOpen_setCoroutine_of_ne (fun heq => hd (congrArg some heq.symm)) h
  | threadEnd | jobEnd =>
    unfold unwind
    dsimp only
    split
    · exact isOpen_setOutcome_of_ne (fun heq => hd (congrArg some heq.symm)) h
    · exact h
  | _ => exact h

lemma inOrder_unwound (ho : s.InOrder others) : s.unwound.InOrder others := by
  unfold unwound
  split
  · rename_i c f rest hc hs
    rw [InOrder, duties_unwind]
    cases hf : f.duty? with
    | none =>
      rw [duties_onto hs hf]
      exact ho.world fun d _ hd => isOpen_unwind (s := s.onto rest) (by simp [hf]) hd
    | some d =>
      have hduties : s.duties = d ::ₘ (s.onto rest).duties := by
        rw [← duties_push_of_duty hf, push_onto hs]
      rw [InOrder, hduties, Multiset.cons_add] at ho
      refine ho.discharge fun d' hne hd' => isOpen_unwind (s := s.onto rest) (fun heq => ?_) hd'
      exact hne (Option.some.inj (heq.symm.trans hf))
  · exact ho

lemma Drives.world_eq {x : State} (h : s.Drives x id name span ctx) : x.world = s.world := by
  cases h <;> rfl

lemma Drives.duties_eq {x : State} (h : s.Drives x id name span ctx) : x.duties = s.duties := by
  cases h with
  | await hc hs | settle hc hs => exact duties_onto hs rfl
  | gather hc => exact duties_push rfl
  | next hc hs => exact (duties_push rfl).trans (duties_onto hs rfl)
  | @timeout id limit hc => exact duties_push (f := .restoreDeadline s.task.deadline) rfl

lemma inOrder_drive (ho : s.InOrder others) : (s.drive id name span ctx).InOrder others := by
  unfold drive
  split
  · rename_i work hwork
    have hdriven : ((s.setCoroutine id .running).push (.memoize id)).InOrder others := by
      obtain ⟨hid, -⟩ := Array.getElem?_eq_some_iff.1 hwork
      have hnot : ¬ s.world.isOpen (.coroutine id) := fun hopen => nomatch hwork.symm.trans hopen
      rw [InOrder, duties_push_of_duty (d := .coroutine id) rfl, Multiset.cons_add]
      refine ho.insert hnot (fun d hd => isOpen_setCoroutine_of_ne (fun heq => hnot (heq ▸ hd)) hd) ?_
      simp [World.isOpen, setCoroutine, push, hid]
    cases work with
    | call closure inner =>
      simp only [startWork, InOrder, duties_enterBody, world_enterBody]
      exact hdriven
    | receive | background | timer => exact hdriven
  · exact ho
  · exact ho

lemma inOrder_defineNamespace {body : List Node} (ho : s.InOrder others) :
    (s.defineNamespace name body span ctx).InOrder others := by
  refine World.InOrder.world ho fun d _ hd => ?_
  cases d <;> exact hd

lemma duties_readMember : (s.readMember ns name span ctx).duties = s.duties := by
  unfold readMember
  split <;> rfl

lemma duties_namespaceNext {nodes : List Node} : (s.namespaceNext ns name span ctx nodes).duties = s.duties := by
  cases nodes with
  | nil => exact duties_readMember
  | cons n nodes => exact duties_push (f := .namespaceBody ns n nodes name span ctx) rfl

lemma inOrder_member (ho : s.InOrder others) : (s.member (.namespace_ id ns) name span ctx).InOrder others := by
  rw [member_namespace]
  split
  · rw [InOrder, duties_readMember, world_readMember]
    exact ho
  · rw [InOrder, duties_namespaceNext, world_namespaceNext]
    refine World.InOrder.world ho fun d _ hd => ?_
    cases d <;> exact hd

lemma duties_setOutcome {o : Outcome} {watched : Bool} : (s.setOutcome p o watched).duties = s.duties := by
  cases p <;> rfl

lemma duties_answered {a : Answer} : (s.answered p limit span ctx a).duties = s.duties := by
  unfold answered
  split <;> rfl

lemma inOrder_look {until_ : Option Nat} (ho : s.InOrder others) : (s.look p limit until_ span ctx).InOrder others := by
  unfold look
  split
  · rw [InOrder, world_answered, duties_answered]
    exact ho
  · rename_i o watched houtcome
    rw [outcome?_eq] at houtcome
    have hset {o' : Outcome} {watched' : Bool} (hgone : o'.producerGone = o.producerGone) :
        (s.setOutcome p o' watched').InOrder others := by
      rw [InOrder, duties_setOutcome]
      exact ho.world fun d _ => isOpen_setOutcome houtcome hgone
    have hgone := o.producerGone_poll
    split
    · rename_i o' hpoll
      rw [hpoll] at hgone
      split
      · rw [InOrder, world_answered, duties_answered]
        exact hset hgone
      · exact hset hgone
    · rename_i a o' _ hpoll
      rw [hpoll] at hgone
      rw [InOrder, world_answered, duties_answered]
      exact hset hgone

lemma inOrder_nextJob {pool : Nat} (ho : s.InOrder others) : (s.nextJob pool).InOrder others := by
  unfold nextJob
  split
  · rename_i p hp
    split
    · rename_i job rest hqueue
      have hset := queued_setPool hp { p with queue := rest }
      rw [hqueue, map_cons, ← Multiset.cons_coe, Multiset.add_cons, ← Multiset.cons_add] at hset
      have hqueued : s.world.queued = job.duty ::ₘ (s.setPool pool { p with queue := rest }).world.queued :=
        (add_right_cancel hset).symm
      refine (ho.mono ?_).world fun d _ hd => by cases d <;> exact hd
      have hjob : (s.jobTask pool job).duties = {job.duty} := rfl
      have hduties : s.duties = s.task.duties +
        (job.duty ::ₘ (s.setPool pool { p with queue := rest }).world.duties) := by
        rw [duties, World.duties, hqueued, Multiset.add_cons]
        rfl
      change ((s.setPool pool { p with queue := rest }).jobTask pool job).duties + _ + others ≤ _
      rw [hduties]
      exact add_le_add_left (Multiset.le_add_left _ _) others
    · rename_i hqueue
      have hset := queued_setPool hp { p with idle := p.idle + 1 }
      have hqueued : (s.setPool pool { p with idle := p.idle + 1 }).world.queued = s.world.queued :=
        add_right_cancel hset
      have hduties : ((s.setPool pool { p with idle := p.idle + 1 }).value .nil).duties = s.duties := by
        rw [duties, duties, World.duties, World.duties]
        exact congrArg (fun q => s.task.duties + ((s.world.born.map Task.duties).sum + q)) hqueued
      rw [InOrder, hduties]
      exact ho.world fun d _ hd => by cases d <;> exact hd
  · exact ho

theorem inOrder_step (ho : s.InOrder others) : s.step.InOrder others := by
  have hmoves : s.Moves .any s.step := step_moves fun _ _ => trivial
  have honto {f : Frame} {rest : List Frame} (hs : s.task.stack = f :: rest) (hf : f.duty? = none) :
      (s.onto rest).InOrder others := by
    rw [InOrder, duties_onto hs hf]
    exact ho
  generalize s.step = s' at hmoves
  cases hmoves with
  | rest _ => exact ho
  | act h => exact h.inOrder (inOrder_unwound ho)
  | drive h =>
    refine inOrder_drive ?_
    rw [InOrder, h.world_eq, h.duties_eq]
    exact ho
  | define _ => exact inOrder_defineNamespace ho
  | access _ hs => exact inOrder_member (honto hs rfl)
  | proceed _ hs =>
    rw [InOrder, duties_namespaceNext, world_namespaceNext]
    exact honto hs rfl
  | look _ => exact inOrder_look ho
  | @query p o _ houtcome =>
    rw [outcome?_eq] at houtcome
    have hduties : ((s.setOutcome p o.isSettled.2 false).value (told p o.isSettled.1)).duties = s.duties :=
      duties_setOutcome
    rw [InOrder, hduties]
    exact ho.world fun d _ => isOpen_setOutcome houtcome o.producerGone_isSettled
  | job _ _ => exact inOrder_nextJob (inOrder_unwound ho)

end State

namespace Machine

variable {m : Machine} {move : Move} {s : State} {settings : Settings} {argv : List String} {files : FileTree}
  {input : List UInt8}

def InOrder (m : Machine) : Prop := m.world.InOrder ((m.tasks.map Task.duties).sum + m.world.duties)

lemma InOrder.split (h : m.InOrder) {before after : List Task} {t : Task} (htasks : m.tasks = before ++ t :: after)
    (hstack : s.task.stack = t.stack) (hworld : s.world = m.world) :
    s.world.InOrder (s.duties + ((before.map Task.duties).sum + (after.map Task.duties).sum)) := by
  have hduties : s.task.duties = t.duties := by rw [Task.duties, hstack, Task.duties]
  rw [InOrder, htasks, map_append, sum_append, map_cons, sum_cons, ← hduties] at h
  rw [State.duties, hworld]
  convert h using 1
  abel

lemma InOrder.mover (h : m.InOrder) (hs : m.mover? move = some s) : ∃ others, s.InOrder others := by
  obtain ⟨before, t, after, left, htasks, -, hstack, -, -⟩ := tasks_of_mover hs
  exact ⟨_, h.split htasks hstack (world_mover hs)⟩

lemma InOrder.moved (h : m.InOrder) (move : Move) : (m.move move).InOrder := by
  cases hs : m.mover? move with
  | some s =>
    obtain ⟨before, t, after, left, htasks, -, hstack, hmoved, hleft⟩ := tasks_of_mover hs
    have hbefore := h.split htasks hstack (world_mover hs)
    have hafter := State.inOrder_step hbefore
    have hleft : (left.map Task.duties).sum = s.step.task.duties := by
      rcases hleft with rfl | ⟨rfl, hover⟩
      · exact sum_singleton
      · unfold Task.isOver at hover
        split at hover
        · rename_i hempty
          rw [Task.duties, hempty]
          rfl
        · contradiction
    rw [InOrder, hmoved, world_of_mover hs]
    simp only [map_append, sum_append, hleft]
    refine World.InOrder.world (w := s.step.world) ?_ fun d _ hd => by cases d <;> exact hd
    convert hafter using 1
    simp only [State.duties, World.duties, World.queued, map_nil, sum_nil]
    abel
  | none =>
    rcases move_of_no_mover hs with heq | ⟨source, program, rfl⟩
    · rw [heq]
      exact h
    · have hagrees := m.agrees_of_launch source program
      obtain ⟨t, htasks, hstart⟩ := m.tasks_launch source program
      have ht : t.duties = 0 := by
        rcases hstart with ⟨hstack, -⟩ | ⟨statement, rest, ctx, hstack, -⟩ <;> rw [Task.duties, hstack] <;> rfl
      have hworld : (m.move (.launch source program)).world.duties = m.world.duties := by
        simp only [World.duties, World.queued, hagrees.born, hagrees.pools]
      rw [InOrder, htasks, hworld, map_cons, sum_cons, ht, zero_add]
      refine (h.mono ?_).grows hagrees.grows
      rw [tasks, map_cons, sum_cons]
      exact add_le_add_left (Multiset.le_add_left _ _) _

theorem inOrder_after (moves : List Move) : ((boot settings argv files input).after moves).InOrder := by
  refine after_induction ?_ (fun m move h => h.moved move) moves
  exact ⟨Multiset.nodup_zero, fun d hd => absurd hd (Multiset.notMem_zero d)⟩

end Machine

end ScriptMachine
