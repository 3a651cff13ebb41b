import ScriptMachine.Proofs.Duties

/-! The result of a thread or a job is neither lost nor changed on its way from its producer to any number of clients.
-/

namespace ScriptMachine

open List

variable {a : Answer}

def Answer.isPending : Answer → Bool
  | .pending => true
  | .ready _ | .lost => false

/-- What is done with an outcome. Its producer sends a result or goes away without one; a client waits until it has an
answer or until its time is over, or asks whether there is more to wait for. -/
inductive Deed where
  | send (r : Result)
  | abandon
  | wait (a : Answer)
  | query (settled : Bool)

namespace Outcome

inductive Takes (o : Outcome) : Deed → Outcome → Prop
  | send (r : Result) : o.producerGone = false → Takes o (.send r) (o.send r)
  | abandon : o.producerGone = false → Takes o .abandon o.abandon
  | wait : Takes o (.wait o.poll.1) o.poll.2
  | query : Takes o (.query o.isSettled.1) o.isSettled.2

inductive Undergoes : List Deed → Outcome → Prop
  | start : Undergoes [] {}
  | next {ds : List Deed} {d : Deed} {o o' : Outcome} : Undergoes ds o → o.Takes d o' → Undergoes (ds ++ [d]) o'

def Holds (o : Outcome) (r : Result) : Prop := o.settled = some r ∨ o.settled = none ∧ o.sent = some r

variable {o o' : Outcome} {r : Result} {d : Deed} {ds : List Deed}

lemma Holds.poll (h : o.Holds r) : o.poll.1 = .ready r ∧ o.poll.2.Holds r := by
  rcases h with h | ⟨h, hs⟩
  · simp [Outcome.poll, Holds, h]
  · simp [Outcome.poll, Holds, h, hs]

lemma Holds.isSettled (h : o.Holds r) : o.isSettled.1 = true ∧ o.isSettled.2.Holds r := by
  obtain ⟨hready, hholds⟩ := h.poll
  unfold Outcome.isSettled
  split
  · simp_all
  · simp_all

end Outcome

def Deed.Tells (a : Answer) (d : Deed) : Prop := d = .wait a ∨ d = .query (!a.isPending)

lemma Deed.not_tells_send {r : Result} : ¬ (Deed.send r).Tells a := by simp [Tells]

lemma Deed.tells_wait {a' : Answer} : (Deed.wait a').Tells a ↔ a' = a := by simp [Tells]

lemma Deed.tells_query {b : Bool} : (Deed.query b).Tells a ↔ b = !a.isPending := by simp [Tells]

namespace Outcome

variable {o o' : Outcome} {r : Result} {d : Deed} {ds : List Deed}

inductive Course : List Deed → Outcome → Prop
  | pending {ds : List Deed} : (∀ d ∈ ds, d.Tells .pending) → Course ds {}
  | sent {before after : List Deed} {r : Result} {o : Outcome} : (∀ d ∈ before, d.Tells .pending) →
      (∀ d ∈ after, d.Tells (.ready r)) → o.Holds r → o.producerGone = true → Course (before ++ .send r :: after) o
  | abandoned {before after : List Deed} : (∀ d ∈ before, d.Tells .pending) → (∀ d ∈ after, d.Tells .lost) →
      Course (before ++ .abandon :: after) (abandon {})

lemma forall_mem_concat {α : Type} {p : α → Prop} {xs : List α} {a : α} (h : ∀ x ∈ xs, p x) (ha : p a) :
    ∀ x ∈ xs ++ [a], p x := by
  intro x hx
  rcases mem_append.1 hx with hx | hx
  · exact h x hx
  · exact mem_singleton.1 hx ▸ ha

lemma Course.next (h : Course ds o) (hd : o.Takes d o') : Course (ds ++ [d]) o' := by
  cases h with
  | pending hds =>
    cases hd with
    | send r _ => exact .sent hds (forall_mem_nil _) (.inr ⟨rfl, rfl⟩) rfl
    | abandon _ => exact .abandoned hds (forall_mem_nil _)
    | wait => exact .pending (forall_mem_concat hds (.inl rfl))
    | query => exact .pending (forall_mem_concat hds (.inr rfl))
  | sent hbefore hafter hholds hgone =>
    rw [append_assoc, cons_append]
    cases hd with
    | send _ hproducer | abandon hproducer => exact nomatch hproducer.symm.trans hgone
    | wait =>
      obtain ⟨hready, hheld⟩ := hholds.poll
      exact .sent hbefore (forall_mem_concat hafter (.inl (hready ▸ rfl))) hheld (o.producerGone_poll.trans hgone)
    | query =>
      obtain ⟨htrue, hheld⟩ := hholds.isSettled
      exact .sent hbefore (forall_mem_concat hafter (.inr (htrue ▸ rfl))) hheld
        (o.producerGone_isSettled.trans hgone)
  | abandoned hbefore hafter =>
    rw [append_assoc, cons_append]
    cases hd with
    | send | abandon => contradiction
    | wait => exact .abandoned hbefore (forall_mem_concat hafter (.inl rfl))
    | query => exact .abandoned hbefore (forall_mem_concat hafter (.inr rfl))

theorem Undergoes.course (h : Undergoes ds o) : Course ds o := by
  induction h with
  | start => exact .pending (forall_mem_nil _)
  | next _ hd ih => exact ih.next hd

end Outcome

structure Faithful (ds : List Deed) : Prop where
  ready {before after : List Deed} {r : Result} : ds = before ++ .wait (.ready r) :: after → .send r ∈ before
  /-- Once the result is sent, all waits end with it; who asks is told that there is nothing to wait for. -/
  kept {before after : List Deed} {r : Result} : ds = before ++ after → .send r ∈ before →
    (∀ a, .wait a ∈ after → a = .ready r) ∧ ∀ b, .query b ∈ after → b = true
  settled {before after : List Deed} : ds = before ++ .query true :: after → (∃ r, .send r ∈ before) ∨ .abandon ∈ before
  lost {before after : List Deed} : ds = before ++ .wait .lost :: after → .abandon ∈ before ∧ ∀ r, .send r ∉ ds

namespace Outcome

variable {before after : List Deed} {o : Outcome} {d : Deed} {ds : List Deed}

lemma before_or_after {α : Type} {xs ys before after : List α} {x y : α} (h : xs ++ x :: ys = before ++ y :: after)
    (hne : y ≠ x) : y ∈ xs ∨ x ∈ before ∧ y ∈ ys := by
  rcases append_eq_append_iff.1 h with ⟨middle, rfl, hrest⟩ | ⟨middle, rfl, hrest⟩
  · cases middle with
    | nil => exact absurd (List.cons.inj hrest).1.symm hne
    | cons z middle =>
      cases hrest
      exact .inr ⟨by simp, by simp⟩
  · cases middle with
    | nil => exact absurd (List.cons.inj hrest).1 hne
    | cons z middle =>
      cases hrest
      exact .inl (by simp)

lemma Course.faithful_of_pending (hds : ∀ d ∈ ds, d.Tells .pending) : Faithful ds := by
  have hmem {before after : List Deed} {d : Deed} (heq : ds = before ++ d :: after) : d.Tells .pending :=
    hds d (by simp [heq])
  refine ⟨fun heq => ?_, fun {_ _ r} heq hsend => ?_, fun heq => ?_, fun heq => ?_⟩
  · exact nomatch Deed.tells_wait.1 (hmem heq)
  · have hsent : .send r ∈ ds := heq ▸ mem_append_left _ hsend
    exact absurd (hds _ hsent) Deed.not_tells_send
  · exact nomatch Deed.tells_query.1 (hmem heq)
  · exact nomatch Deed.tells_wait.1 (hmem heq)

lemma Course.faithful_of_sent {r : Result} (hbefore : ∀ d ∈ before, d.Tells .pending)
    (hafter : ∀ d ∈ after, d.Tells (.ready r)) : Faithful (before ++ .send r :: after) := by
  refine ⟨fun {b a r'} heq => ?_, fun {b a r'} heq hsend => ?_, fun {b a} heq => ?_, fun {b a} heq => ?_⟩
  · rcases before_or_after heq (by simp) with hmem | ⟨hmem, htold⟩
    · exact nomatch Deed.tells_wait.1 (hbefore _ hmem)
    · obtain rfl : r' = r := Answer.ready.inj (Deed.tells_wait.1 (hafter _ htold))
      exact hmem
  · rcases append_eq_append_iff.1 heq with ⟨middle, rfl, hrest⟩ | ⟨middle, rfl, -⟩
    · cases middle with
      | nil => exact absurd (hbefore _ (append_nil before ▸ hsend)) Deed.not_tells_send
      | cons d middle =>
        cases hrest
        obtain rfl : r' = r := by
          rcases mem_append.1 hsend with hmem | hmem
          · exact absurd (hbefore _ hmem) Deed.not_tells_send
          · rcases mem_cons.1 hmem with heq | hmem
            · exact Deed.send.inj heq
            · exact absurd (hafter _ (mem_append_left _ hmem)) Deed.not_tells_send
        refine ⟨fun answer hwait => ?_, fun b hquery => ?_⟩
        · exact Deed.tells_wait.1 (hafter _ (mem_append_right _ hwait))
        · exact Deed.tells_query.1 (hafter _ (mem_append_right _ hquery))
    · exact absurd (hbefore _ (mem_append_left _ hsend)) Deed.not_tells_send
  · rcases before_or_after heq (by simp) with hmem | ⟨hmem, -⟩
    · exact nomatch Deed.tells_query.1 (hbefore _ hmem)
    · exact .inl ⟨r, hmem⟩
  · rcases before_or_after heq (by simp) with hmem | ⟨-, htold⟩
    · exact nomatch Deed.tells_wait.1 (hbefore _ hmem)
    · exact nomatch Deed.tells_wait.1 (hafter _ htold)

lemma Course.faithful_of_abandoned (hbefore : ∀ d ∈ before, d.Tells .pending) (hafter : ∀ d ∈ after, d.Tells .lost) :
    Faithful (before ++ .abandon :: after) := by
  have hnone (r : Result) : .send r ∉ before ++ .abandon :: after := by
    intro hsend
    rcases mem_append.1 hsend with hmem | hmem
    · exact Deed.not_tells_send (hbefore _ hmem)
    · rcases mem_cons.1 hmem with heq | hmem
      · contradiction
      · exact Deed.not_tells_send (hafter _ hmem)
  refine ⟨fun {b a r} heq => ?_, fun {b a r} heq hsend => ?_, fun {b a} heq => ?_, fun {b a} heq => ?_⟩
  · rcases before_or_after heq (by simp) with hmem | ⟨-, htold⟩
    · exact nomatch Deed.tells_wait.1 (hbefore _ hmem)
    · exact nomatch Deed.tells_wait.1 (hafter _ htold)
  · exact absurd (heq ▸ mem_append_left _ hsend) (hnone r)
  · rcases before_or_after heq (by simp) with hmem | ⟨hmem, -⟩
    · exact nomatch Deed.tells_query.1 (hbefore _ hmem)
    · exact .inr hmem
  · rcases before_or_after heq (by simp) with hmem | ⟨hmem, -⟩
    · exact nomatch Deed.tells_wait.1 (hbefore _ hmem)
    · exact ⟨hmem, hnone⟩

theorem Course.faithful (h : Course ds o) : Faithful ds := by
  cases h with
  | pending hds => exact faithful_of_pending hds
  | sent hbefore hafter _ _ => exact faithful_of_sent hbefore hafter
  | abandoned hbefore hafter => exact faithful_of_abandoned hbefore hafter

end Outcome

def Wait.producer? : Wait → Option Producer
  | .turn p _ _ _ | .outcome p _ _ _ _ | .query p => some p
  | _ => none

lemma Outcome.eq_of_poll_pending {o o' : Outcome} (h : o.poll = (.pending, o')) : o' = o := by
  unfold poll at h
  split at h
  · cases h
  · cases h
  · exact (Prod.mk.inj h).2.symm

def Outcome.answer? (o : Outcome) (late : Bool) : Option Deed :=
  if o.poll.1.isPending && !late then none else some (.wait o.poll.1)

def Outcome.Follows (o : Outcome) (d? : Option Deed) (o' : Outcome) : Prop :=
  match d? with
  | some d => o.Takes d o'
  | none => o' = o

/-- Deeds are all that was done with an outcome; with one that is not there nothing was done. -/
def World.Tracks (w : World) (p : Producer) (ds : List Deed) : Prop :=
  match w.outcome? p with
  | some (o, _) => Outcome.Undergoes ds o
  | none => ds = []

def World.Keeps (p : Producer) (w w' : World) : Prop :=
  w'.outcome? p = w.outcome? p ∨ w.outcome? p = none ∧ w'.outcome? p = some ({}, false)

namespace World

variable {p : Producer} {w w' w'' : World}

lemma Keeps.trans (h : w.Keeps p w') (h' : w'.Keeps p w'') : w.Keeps p w'' := by
  rcases h with h | ⟨hnone, hnew⟩
  · rw [Keeps, ← h]
    exact h'
  · rcases h' with h' | ⟨hnone', -⟩
    · exact .inr ⟨hnone, h'.trans hnew⟩
    · exact nomatch hnew.symm.trans hnone'

lemma Keeps.of_some {o : Outcome × Bool} (h : w.Keeps p w') (hp : w.outcome? p = some o) : w'.outcome? p = some o := by
  rcases h with h | ⟨hnone, -⟩
  · exact h.trans hp
  · exact nomatch hnone.symm.trans hp

lemma Grows.keeps (h : w.Grows w') : w.Keeps p w' := by
  cases hp : w.outcome? p with
  | some o => exact .inl ((h.outcome hp).trans hp.symm)
  | none =>
    cases hp' : w'.outcome? p with
    | none => exact .inl (hp'.trans hp.symm)
    | some o => exact .inr ⟨hp, hp'.trans (congrArg some (h.fresh hp hp'))⟩

end World

namespace State

variable {limit until_ : Option Nat} {span : Span} {ctx : Context} {c : Completion} {s : State} {p q : Producer}
  {o : Outcome} {watched : Bool} {others : Multiset Duty}

def deed? (s : State) (p : Producer) : Option Deed :=
  (s.world.outcome? p).bind fun (o, watched) =>
    match s.task.control, s.task.stack with
    | .wait (.turn q limit _ _), _ => if q = p ∧ watched = false then o.answer? (s.isOver (s.endOf limit)) else none
    | .wait (.outcome q _ until_ _ _), _ => if q = p then o.answer? (s.isOver until_) else none
    | .wait (.query q), _ => if q = p ∧ watched = false then some (.query o.isSettled.1) else none
    | .done c, f :: _ => if f.duty? = some (.outcome p) then some (.send c.result) else none
    | _, _ => none

lemma keeps_unwind {f : Frame} (hf : f.duty? = some (.outcome p) → s.world.outcome? p = none) :
    s.world.Keeps p (s.unwind f c).world := by
  have hreport {q : Producer} {r : Outcome × Bool} (hq : f.duty? = some (.outcome q)) (hr : s.outcome? q = some r) :
      p ≠ q := by
    rintro rfl
    rw [outcome?_eq, hf hq] at hr
    contradiction
  cases f with
  | threadEnd number | jobEnd future pool =>
    unfold unwind
    dsimp only
    split
    · rename_i hr
      exact .inl (outcome?_setOutcome_of_ne (hreport rfl hr))
    · exact .inl rfl
  | _ => exact .inl (by cases p <;> rfl)

lemma outcome?_nextJob {pool : Nat} : (s.nextJob pool).world.outcome? p = s.world.outcome? p := by
  unfold nextJob
  split
  · split <;> cases p <;> rfl
  · rfl

lemma look_cases (s : State) (p : Producer) (limit until_ : Option Nat) (span : Span) (ctx : Context) :
    s.world.outcome? p = none ∧ s.look p limit until_ span ctx = s.answered p limit span ctx .lost ∨
    ∃ o watched, s.world.outcome? p = some (o, watched) ∧
      (o.answer? (s.isOver until_) = none ∧
          s.look p limit until_ span ctx = (s.setOutcome p o true).wait (.outcome p limit until_ span ctx) ∨
        o.answer? (s.isOver until_) = some (.wait o.poll.1) ∧
          s.look p limit until_ span ctx = (s.setOutcome p o.poll.2 false).answered p limit span ctx o.poll.1) := by
  unfold look
  rw [outcome?_eq]
  split
  · rename_i hnone
    exact .inl ⟨hnone, rfl⟩
  · rename_i o watched ho
    refine .inr ⟨o, watched, ho, ?_⟩
    obtain ⟨a, o', hpoll⟩ : ∃ a o', o.poll = (a, o') := ⟨_, _, rfl⟩
    cases a with
    | pending =>
      obtain rfl := Outcome.eq_of_poll_pending hpoll
      simp only [Outcome.answer?, hpoll, Answer.isPending, Bool.true_and]
      cases s.isOver until_ <;> simp
    | ready | lost => simp [Outcome.answer?, hpoll, Answer.isPending]

lemma outcome?_look (h : q = p → s.world.outcome? p = none) :
    (s.look q limit until_ span ctx).world.outcome? p = s.world.outcome? p := by
  have hne {r : Outcome × Bool} (hr : s.world.outcome? q = some r) : p ≠ q := by
    rintro rfl
    exact nomatch hr.symm.trans (h rfl)
  rcases s.look_cases q limit until_ span ctx with ⟨-, heq⟩ | ⟨o, watched, ho, ⟨-, heq⟩ | ⟨-, heq⟩⟩
  · rw [heq, world_answered]
  · rw [heq]
    exact outcome?_setOutcome_of_ne (hne ho)
  · rw [heq, world_answered]
    exact outcome?_setOutcome_of_ne (hne ho)

lemma keeps_step (hw : ∀ w, s.task.control = .wait w → w.producer? = some p → s.world.outcome? p = none)
    (hd : ∀ c f rest, s.task.control = .done c → s.task.stack = f :: rest → f.duty? = some (.outcome p) →
      s.world.outcome? p = none) :
    s.world.Keeps p s.step.world := by
  have hunwound : s.world.Keeps p s.unwound.world := by
    unfold unwound
    split
    · rename_i c f rest hc hs
      exact keeps_unwind (s := s.onto rest) (hd c f rest hc hs)
    · exact .inl rfl
  have hmoves : s.Moves .any s.step := step_moves fun _ _ => trivial
  generalize s.step = s' at hmoves
  cases hmoves with
  | rest _ => exact .inl rfl
  | act h => exact hunwound.trans h.grows.keeps
  | @drive x id name span ctx h =>
    left
    rw [← h.world_eq]
    rcases x.world_drive with ⟨-, -, heq⟩ | ⟨-, heq⟩
    · rw [heq]
      cases p <;> rfl
    · rw [heq]
  | define _ => exact .inl (by cases p <;> rfl)
  | access _ _ =>
    left
    rw [world_member]
    split
    · rfl
    · cases p <;> rfl
  | proceed _ _ => exact .inl (by rw [world_namespaceNext]; rfl)
  | look h =>
    cases h with
    | turn hc | outcome hc => exact .inl (outcome?_look fun heq => hw _ hc (congrArg some heq))
  | query hc ho =>
    refine .inl (outcome?_setOutcome_of_ne ?_)
    rintro rfl
    rw [outcome?_eq, hw _ hc rfl] at ho
    contradiction
  | job _ _ => exact hunwound.trans (.inl outcome?_nextJob)

lemma takes_look (hp : s.world.outcome? p = some (o, watched)) :
    ∃ o' watched', (s.look p limit until_ span ctx).world.outcome? p = some (o', watched') ∧
      o.Follows (o.answer? (s.isOver until_)) o' := by
  rcases s.look_cases p limit until_ span ctx with ⟨hnone, -⟩ | ⟨o₁, watched₁, ho, hlook⟩
  · exact nomatch hnone.symm.trans hp
  · obtain ⟨rfl, rfl⟩ := Prod.mk.inj (Option.some.inj (hp.symm.trans ho))
    rcases hlook with ⟨hanswer, heq⟩ | ⟨hanswer, heq⟩
    · rw [heq, hanswer]
      exact ⟨o, true, outcome?_setOutcome hp, rfl⟩
    · rw [heq, hanswer, world_answered]
      exact ⟨o.poll.2, false, outcome?_setOutcome hp, .wait⟩

/-- The step leaves the outcome there, as the deed that it does, if any, says. -/
abbrev Takes (s : State) (p : Producer) (o : Outcome) : Prop :=
  ∃ o' watched', s.step.world.outcome? p = some (o', watched') ∧ o.Follows (s.deed? p) o'

section takes

variable (hp : s.world.outcome? p = some (o, watched))
include hp

lemma takes_other (hw : ∀ w, s.task.control = .wait w → w.producer? ≠ some p)
    (hd : ∀ c f rest, s.task.control = .done c → s.task.stack = f :: rest → f.duty? ≠ some (.outcome p)) :
    s.Takes p o := by
  have hdeed : s.deed? p = none := by
    simp only [deed?, hp, Option.bind_some]
    split
    · rename_i hc
      exact if_neg fun h => hw _ hc (congrArg some h.1)
    · rename_i hc
      exact if_neg fun h => hw _ hc (congrArg some h)
    · rename_i hc
      exact if_neg fun h => hw _ hc (congrArg some h.1)
    · rename_i hc hs
      exact if_neg (hd _ _ _ hc hs)
    · rfl
  have hkeeps : s.world.Keeps p s.step.world :=
    keeps_step (fun w hc h => absurd h (hw w hc)) fun c f rest hc hs h => absurd h (hd c f rest hc hs)
  rw [Takes, hdeed]
  exact ⟨o, watched, hkeeps.of_some hp, rfl⟩

lemma takes_wait_of_ne {w : Wait} (hc : s.task.control = .wait w) (hw : w.producer? ≠ some p) : s.Takes p o := by
  refine takes_other hp (fun w' hw' => ?_) fun c f rest hdone => nomatch hc.symm.trans hdone
  obtain rfl := Control.wait.inj (hc.symm.trans hw')
  exact hw

lemma takes_turn (hc : s.task.control = .wait (.turn q limit span ctx)) : s.Takes p o := by
  by_cases heq : q = p
  · subst heq
    have hout : s.outcome? q = some (o, watched) := (s.outcome?_eq q).trans hp
    cases watched with
    | true =>
      have hstep : s.step = s.wait (.turn q limit span ctx) := by simp only [step, hc, retry, hout]
      have hdeed : s.deed? q = none := by simp [deed?, hp, hc]
      rw [Takes, hstep, hdeed]
      exact ⟨o, true, hp, rfl⟩
    | false =>
      have hstep : s.step = s.look q limit (s.endOf limit) span ctx := by simp only [step, hc, retry, hout]
      have hdeed : s.deed? q = o.answer? (s.isOver (s.endOf limit)) := by simp [deed?, hp, hc]
      rw [Takes, hstep, hdeed]
      exact takes_look hp
  · exact takes_wait_of_ne hp hc fun h => heq (Option.some.inj h)

lemma takes_outcome (hc : s.task.control = .wait (.outcome q limit until_ span ctx)) : s.Takes p o := by
  by_cases heq : q = p
  · subst heq
    have hstep : s.step = s.look q limit until_ span ctx := by simp only [step, hc, retry]
    have hdeed : s.deed? q = o.answer? (s.isOver until_) := by simp [deed?, hp, hc]
    rw [Takes, hstep, hdeed]
    exact takes_look hp
  · exact takes_wait_of_ne hp hc fun h => heq (Option.some.inj h)

lemma takes_query (hc : s.task.control = .wait (.query q)) : s.Takes p o := by
  by_cases heq : q = p
  · subst heq
    have hout : s.outcome? q = some (o, watched) := (s.outcome?_eq q).trans hp
    cases watched with
    | true =>
      have hstep : s.step = s.wait (.query q) := by simp only [step, hc, retry, hout]
      have hdeed : s.deed? q = none := by simp [deed?, hp, hc]
      rw [Takes, hstep, hdeed]
      exact ⟨o, true, hp, rfl⟩
    | false =>
      have hstep : s.step.world = (s.setOutcome q o.isSettled.2 false).world := by
        simp only [step, hc, retry, hout]
        cases q <;> rfl
      have hdeed : s.deed? q = some (.query o.isSettled.1) := by simp [deed?, hp, hc]
      rw [Takes, hstep, hdeed]
      exact ⟨o.isSettled.2, false, outcome?_setOutcome hp, .query⟩
  · exact takes_wait_of_ne hp hc fun h => heq (Option.some.inj h)

lemma takes_report {f : Frame} {rest : List Frame} (ho : s.InOrder others)
    (hc : s.task.control = .done c) (hs : s.task.stack = f :: rest) (hf : f.duty? = some (.outcome p)) :
    s.Takes p o := by
  have hgone : o.producerGone = false := by
    have hduty : .outcome p ∈ s.duties + others := by
      rw [← push_onto hs, duties_push_of_duty hf]
      exact Multiset.mem_add.2 (.inl (Multiset.mem_cons_self _ _))
    obtain ⟨o', watched', hp', hgone⟩ := ho.isOpen _ hduty
    obtain ⟨rfl, -⟩ := Prod.mk.inj (Option.some.inj (hp'.symm.trans hp))
    exact hgone
  have hdeed : s.deed? p = some (.send c.result) := by simp [deed?, hp, hc, hs, hf]
  rw [Takes, hdeed, step_of_done hc hs]
  refine ⟨o.send c.result, watched, ?_, .send _ hgone⟩
  have hout : (s.onto rest).outcome? p = some (o, watched) := ((s.onto rest).outcome?_eq p).trans hp
  cases f with
  | threadEnd number =>
    obtain rfl : .thread number = p := Duty.outcome.inj (Option.some.inj hf)
    have hunwind : (s.onto rest).unwind (.threadEnd number) c =
        (s.onto rest).setOutcome (.thread number) (o.send c.result) watched := by simp only [unwind, hout]
    have hresume : ((s.onto rest).resume (.threadEnd number) c).world =
        ((s.onto rest).setOutcome (.thread number) (o.send c.result) watched).world := by
      rw [← hunwind]
      cases c <;> rfl
    rw [hresume]
    exact outcome?_setOutcome hp
  | jobEnd future pool =>
    obtain rfl : .future future = p := Duty.outcome.inj (Option.some.inj hf)
    have hunwind : (s.onto rest).unwind (.jobEnd future pool) c =
        (s.onto rest).setOutcome (.future future) (o.send c.result) watched := by simp only [unwind, hout]
    have hresume : (s.onto rest).resume (.jobEnd future pool) c =
        ((s.onto rest).setOutcome (.future future) (o.send c.result) watched).nextJob pool := by
      rw [← hunwind]
      rfl
    rw [hresume, outcome?_nextJob]
    exact outcome?_setOutcome hp
  | memoize id => cases Option.some.inj hf
  | _ => contradiction

lemma takes_step (ho : s.InOrder others) : s.Takes p o := by
  cases hc : s.task.control with
  | eval | call =>
    exact takes_other hp (fun w hw => nomatch hc.symm.trans hw) fun c f rest hd => nomatch hc.symm.trans hd
  | wait w =>
    cases w with
    | turn q => exact takes_turn hp hc
    | outcome q => exact takes_outcome hp hc
    | query q => exact takes_query hp hc
    | _ => exact takes_wait_of_ne hp hc (by simp [Wait.producer?])
  | done c =>
    by_cases hd : ∃ f rest, s.task.stack = f :: rest ∧ f.duty? = some (.outcome p)
    · obtain ⟨f, rest, hs, hf⟩ := hd
      exact takes_report hp ho hc hs hf
    · exact takes_other hp (fun w hw => nomatch hc.symm.trans hw) fun c f rest _ hs hf => hd ⟨f, rest, hs, hf⟩

end takes

lemma fresh_step {r : Outcome × Bool} (hp : s.world.outcome? p = none) (hr : s.step.world.outcome? p = some r) :
    r = ({}, false) := by
  have hkeeps : s.world.Keeps p s.step.world := keeps_step (fun _ _ _ => hp) fun _ _ _ _ _ _ => hp
  rcases hkeeps with heq | ⟨-, heq⟩
  · exact nomatch (hr.symm.trans heq).trans hp
  · exact Option.some.inj (hr.symm.trans heq)

end State

namespace Machine

variable {m : Machine} {p : Producer} {move : Move} {moves : List Move} {settings : Settings} {argv : List String}
  {files : FileTree} {input : List UInt8}

def deedsOn (p : Producer) (m : Machine) : List Move → List Deed
  | [] => []
  | move :: moves => ((m.mover? move).bind (·.deed? p)).toList ++ deedsOn p (m.move move) moves

lemma deedsOn_append {moves' : List Move} :
    m.deedsOn p (moves ++ moves') = m.deedsOn p moves ++ (m.after moves).deedsOn p moves' := by
  induction moves generalizing m with
  | nil => rfl
  | cons move moves ih => simp only [cons_append, deedsOn, ih, append_assoc]; rfl

lemma outcome?_move {s : State} (hs : m.mover? move = some s) :
    (m.move move).world.outcome? p = s.step.world.outcome? p := by
  rw [world_of_mover hs]
  cases p <;> rfl

lemma outcome?_launch {source : Source} {program : Module} :
    (m.move (.launch source program)).world.outcome? p = m.world.outcome? p := by
  have hagrees := m.agrees_of_launch source program
  cases p with
  | thread => simp only [World.outcome?, hagrees.threads]
  | future => simp only [World.outcome?, hagrees.futures]

lemma tracks_move {ds : List Deed} (hm : m.InOrder) (h : m.world.Tracks p ds) :
    (m.move move).world.Tracks p (ds ++ m.deedsOn p [move]) := by
  cases hs : m.mover? move with
  | none =>
    have hnone : m.deedsOn p [move] = [] := by simp [deedsOn, hs]
    rw [hnone, append_nil]
    rcases move_of_no_mover hs with heq | ⟨source, program, rfl⟩
    · rw [heq]
      exact h
    · rw [World.Tracks, outcome?_launch]
      exact h
  | some s =>
    have hdeeds : m.deedsOn p [move] = (s.deed? p).toList := by simp [deedsOn, hs]
    rw [hdeeds, World.Tracks, outcome?_move hs]
    rw [World.Tracks, ← world_mover hs] at h
    cases hp : s.world.outcome? p with
    | none =>
      have hdeed : s.deed? p = none := by simp [State.deed?, hp]
      simp only [hp] at h
      subst h
      rw [hdeed]
      cases hstep : s.step.world.outcome? p with
      | none => rfl
      | some r =>
        obtain rfl := State.fresh_step hp hstep
        exact .start
    | some r =>
      obtain ⟨o, watched⟩ := r
      simp only [hp] at h
      obtain ⟨others, ho⟩ := hm.mover hs
      obtain ⟨o', watched', hstep, hfollows⟩ := State.takes_step hp ho
      simp only [hstep]
      cases hdeed : s.deed? p with
      | none =>
        rw [hdeed] at hfollows
        obtain rfl : o' = o := hfollows
        simpa using h
      | some d =>
        rw [hdeed] at hfollows
        exact .next h hfollows

theorem tracks_after (moves : List Move) :
    ((boot settings argv files input).after moves).world.Tracks p
    ((boot settings argv files input).deedsOn p moves) := by
  induction moves using reverseRecOn with
  | nil => cases p <;> rfl
  | append_singleton moves move ih =>
    rw [deedsOn_append, after_concat]
    exact tracks_move (inOrder_after moves) ih

end Machine

lemma World.Tracks.faithful {w : World} {p : Producer} {ds : List Deed} (h : w.Tracks p ds) : Faithful ds := by
  unfold Tracks at h
  split at h
  · exact h.course.faithful
  · subst h
    exact Outcome.Course.faithful (.pending (forall_mem_nil _))

/-- Whoever looks at an outcome or asks about it is told what the deed says, or goes on waiting. -/
structure State.Serves (s : State) (p : Producer) : Prop where
  look {limit until_ : Option Nat} {span : Span} {ctx : Context} : s.Looks p limit until_ span ctx →
    (s.world.outcome? p).isSome = true →
      (∃ a, s.deed? p = some (.wait a) ∧ s.step.task = (s.answered p limit span ctx a).task) ∨
        s.deed? p = none ∧ s.step.task.control = .wait (.outcome p limit until_ span ctx)
  query {o : Outcome} : s.task.control = .wait (.query p) → s.world.outcome? p = some (o, false) →
    ∃ b, s.deed? p = some (.query b) ∧ s.step.task = (s.value (State.told p b)).task

lemma State.serves (s : State) (p : Producer) : s.Serves p where
  look {limit until_ span ctx} h hp := by
    obtain ⟨⟨o, watched⟩, ho⟩ := Option.isSome_iff_exists.1 hp
    have hlook : s.step = s.look p limit until_ span ctx ∧ s.deed? p = o.answer? (s.isOver until_) := by
      cases h with
      | turn hc hturn =>
        have hout : s.outcome? p = some (o, watched) := (s.outcome?_eq p).trans ho
        cases watched with
        | true => exact absurd hout (hturn o)
        | false => exact ⟨by simp only [step, hc, retry, hout], by simp [deed?, ho, hc]⟩
      | outcome hc => exact ⟨by simp only [step, hc, retry], by simp [deed?, ho, hc]⟩
    rw [hlook.1, hlook.2]
    rcases s.look_cases p limit until_ span ctx with ⟨hnone, -⟩ | ⟨o', watched', ho', hcases⟩
    · exact absurd (hnone.symm.trans ho) (by simp)
    · obtain ⟨rfl, -⟩ := Prod.mk.inj (Option.some.inj (ho.symm.trans ho'))
      rcases hcases with ⟨hanswer, heq⟩ | ⟨hanswer, heq⟩
      · rw [heq]
        exact .inr ⟨hanswer, rfl⟩
      · refine .inl ⟨o.poll.1, hanswer, ?_⟩
        rw [heq]
        cases p <;> unfold answered <;> split <;> rfl
  query {o} hc ho := by
    have hout : s.outcome? p = some (o, false) := (s.outcome?_eq p).trans ho
    refine ⟨o.isSettled.1, by simp [deed?, ho, hc], ?_⟩
    simp only [step, hc, retry, hout]
    cases p <;> rfl

/-- Whatever a producer and its clients do with an outcome in whatever order, a client that is given a result is given
the one that was sent, all clients are given it from then on, and none is told that it is lost unless the producer went
away without it. And whatever the tasks of a machine do in whatever order, what they do with an outcome is such a course
of deeds, and they are told what those say. -/
theorem results_reach_clients_unchanged (settings : Settings) (argv : List String) (files : FileTree)
    (input : List UInt8) :
    (∀ ds o, Outcome.Undergoes ds o → Faithful ds) ∧
    ∀ (moves : List Move) (p : Producer),
      ((Machine.boot settings argv files input).after moves).world.Tracks p
          ((Machine.boot settings argv files input).deedsOn p moves) ∧
        Faithful ((Machine.boot settings argv files input).deedsOn p moves) ∧
        ∀ move s, ((Machine.boot settings argv files input).after moves).mover? move = some s → s.Serves p := by
  refine ⟨fun ds o h => h.course.faithful, fun moves p => ?_⟩
  have htracks : ((Machine.boot settings argv files input).after moves).world.Tracks p _ := Machine.tracks_after moves
  exact ⟨htracks, htracks.faithful, fun move s _ => s.serves p⟩

def joinedThread : Module :=
  .ofTexts ["defun f() -> 7", "let t = thread_start(f)", "thread_is_alive(t)", "thread_join(t, none)"]

def joinedThreadMoves : List Move :=
  .launch ⟨"", ""⟩ joinedThread :: (replicate 12 (.step 0 0) ++ replicate 12 (.step 1 0) ++
    replicate 26 (.step 0 0))

def isTakenByQuery : List Deed → Bool
  | [.send (.ok (.int n)), .query true, .wait (.ready (.ok (.int n')))] => n == 7 && n' == 7
  | _ => false

theorem thread_result_kept_by_query :
    (Outcome.Undergoes [.send (.ok (.int 7)), .query true, .wait (.ready (.ok (.int 7)))]
        ((({} : Outcome).send (.ok (.int 7))).isSettled.2.poll.2) ∧
      Faithful [.send (.ok (.int 7)), .query true, .wait (.ready (.ok (.int 7)))]) ∧
    isTakenByQuery ((Machine.boot ⟨⟨""⟩, 10⟩ [] ⟨[], [], []⟩ []).deedsOn (.thread 0) joinedThreadMoves) = true ∧
      Faithful ((Machine.boot ⟨⟨""⟩, 10⟩ [] ⟨[], [], []⟩ []).deedsOn (.thread 0) joinedThreadMoves) := by
  have hprotocol : Outcome.Undergoes [.send (.ok (.int 7)), .query true, .wait (.ready (.ok (.int 7)))]
      ((({} : Outcome).send (.ok (.int 7))).isSettled.2.poll.2) :=
    .next (.next (.next .start (.send _ rfl)) .query) .wait
  obtain ⟨hfaithful, hmachine⟩ := results_reach_clients_unchanged ⟨⟨""⟩, 10⟩ [] ⟨[], [], []⟩ []
  exact ⟨⟨hprotocol, hfaithful _ _ hprotocol⟩, by decide +kernel, (hmachine joinedThreadMoves (.thread 0)).2.1⟩

end ScriptMachine
