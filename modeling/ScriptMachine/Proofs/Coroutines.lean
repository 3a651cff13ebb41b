import ScriptMachine.Proofs.Containment
import ScriptMachine.Proofs.Duties

/-! Coroutines run once. A coroutine is pending until some task drives it, runs in that task, and has a result from then
on, which all later drives give. -/

namespace ScriptMachine

structure Extends (cs cs' : Array Coroutine) : Prop where
  kept {id : Nat} {c : Coroutine} : cs[id]? = some c → cs'[id]? = some c
  fresh {id : Nat} {c : Coroutine} : cs[id]? = none → cs'[id]? = some c → ∃ work, c = .pending work

lemma Extends.refl {cs : Array Coroutine} : Extends cs cs := ⟨fun h => h, fun hn hc => nomatch hn.symm.trans hc⟩

namespace State

variable {L : Leeway} {s x : State} {id : Nat} {name : String} {span : Span} {ctx : Context} {c : Coroutine}
  {others : Multiset Duty}

def Starts (s : State) (id : Nat) : Prop :=
  ∃ x name span ctx work, s.Drives x id name span ctx ∧ s.world.coroutines[id]? = some (.pending work)

def Ends (s : State) (id : Nat) (r : Result) : Prop :=
  ∃ c rest, s.task.control = .done c ∧ s.task.stack = .memoize id :: rest ∧ c.result = r

structure Gathers (s : State) (members : List Value) (span : Span) (ctx : Context) : Prop where
  call : ∃ args kwargs bound, s.task.control = .call (.builtin .gather) args kwargs span ctx ∧
    Builtin.gather.bind args kwargs = .ok bound ∧
      Invocation.items ⟨.gather, bound, span, ctx⟩ s.world.heap 0 = .ok members
  coroutines : members.all isCoroutine = true

lemma Gathers.step_eq {members : List Value} (h : s.Gathers members span ctx) :
    s.step = s.gatherNext [] span ctx members := by
  obtain ⟨⟨args, kwargs, bound, hc, hbound, hitems⟩, hall⟩ := h
  have hgather : s.perform ⟨.gather, bound, span, ctx⟩ = .ok (s.gatherNext [] span ctx members) := by
    change s.gather ⟨.gather, bound, span, ctx⟩ = _
    unfold State.gather
    rw [hitems]
    exact if_pos hall
  simp only [step, hc, enterCall, callBuiltin, hbound, hgather]

lemma Drives.step_eq (h : s.Drives x id name span ctx) : s.step = x.drive id name span ctx := by
  cases h with
  | await hc hs | settle hc hs | next hc hs => rw [step_of_done hc hs]; rfl
  | gather hc hbound hitems hall => exact Gathers.step_eq ⟨⟨_, _, _, hc, hbound, hitems⟩, hall⟩
  | timeout hc hbound hcoroutine hlimit =>
    simp only [step, hc, enterCall, callBuiltin, hbound, perform, State.timeout, hcoroutine, hlimit]
    rfl

lemma Starts.running (h : s.Starts id) : s.step.world.coroutines[id]? = some .running := by
  obtain ⟨x, name, span, ctx, work, hdrives, hpending⟩ := h
  obtain ⟨hid, -⟩ := Array.getElem?_eq_some_iff.1 hpending
  rw [hdrives.step_eq]
  rcases @world_drive x id name span ctx with ⟨-, -, hw⟩ | ⟨hnot, -⟩
  · rw [hw]
    simp [setCoroutine, hdrives.world_eq, hid]
  · exact absurd (hdrives.world_eq ▸ hpending) (hnot work)

lemma coroutines_unwind {f : Frame} {c : Completion} (hf : ∀ id, f ≠ .memoize id) :
    (s.unwind f c).world.coroutines = s.world.coroutines := by
  cases f with
  | memoize id => exact absurd rfl (hf id)
  | threadEnd | jobEnd =>
    unfold unwind
    dsimp only
    split
    · exact coroutines_setOutcome
    · rfl
  | _ => rfl

lemma coroutines_nextJob {pool : Nat} : (s.nextJob pool).world.coroutines = s.world.coroutines := by
  unfold nextJob
  split
  · split <;> rfl
  · rfl

lemma coroutines_look {p : Producer} {limit until_ : Option Nat} :
    (s.look p limit until_ span ctx).world.coroutines = s.world.coroutines := by
  unfold look
  split
  · rw [world_answered]
  · split
    · split
      · rw [world_answered, coroutines_setOutcome]
      · exact coroutines_setOutcome
    · rw [world_answered, coroutines_setOutcome]

inductive Touches (s : State) : Array Coroutine → Prop
  | none : Touches s s.world.coroutines
  | start {id : Nat} : s.Starts id → Touches s (s.world.coroutines.setIfInBounds id .running)
  | finish {id : Nat} {r : Result} : s.Ends id r → Touches s (s.world.coroutines.setIfInBounds id (.done r))

lemma touches_unwound : s.Touches s.unwound.world.coroutines := by
  unfold unwound
  split
  · rename_i c f rest hcontrol hstack
    by_cases hf : ∃ id, f = .memoize id
    · obtain ⟨id, rfl⟩ := hf
      exact .finish ⟨c, rest, hcontrol, hstack, rfl⟩
    · rw [coroutines_unwind fun id heq => hf ⟨id, heq⟩]
      exact .none
  · exact .none

lemma Drives.touches (h : s.Drives x id name span ctx) : s.Touches (x.drive id name span ctx).world.coroutines := by
  rcases @world_drive x id name span ctx with ⟨work, hpending, hw⟩ | ⟨-, hw⟩
  · rw [hw]
    change s.Touches (x.world.coroutines.setIfInBounds id .running)
    rw [h.world_eq] at hpending ⊢
    exact .start ⟨x, name, span, ctx, work, h, hpending⟩
  · rw [hw, h.world_eq]
    exact .none

lemma coroutines_step : ∃ cs, s.Touches cs ∧ Extends cs s.step.world.coroutines := by
  have hmoves : s.Moves .any s.step := step_moves fun _ _ => trivial
  generalize s.step = s' at hmoves
  have hsame {cs : Array Coroutine} (ht : s.Touches cs) (hs : s'.world.coroutines = cs) :
      ∃ cs, s.Touches cs ∧ Extends cs s'.world.coroutines := ⟨cs, ht, hs ▸ .refl⟩
  cases hmoves with
  | rest | define => exact hsame .none rfl
  | act h => exact ⟨_, touches_unwound, h.grows.coroutine, h.grows.pending⟩
  | drive h => exact hsame h.touches rfl
  | access =>
    refine hsame .none ?_
    rw [world_member]
    split <;> rfl
  | proceed => exact hsame .none (congrArg World.coroutines world_namespaceNext)
  | look => exact hsame .none coroutines_look
  | query => exact hsame .none coroutines_setOutcome
  | job => exact hsame touches_unwound coroutines_nextJob

inductive Turns (s : State) (id : Nat) (c : Coroutine) : Coroutine → Prop
  | rest : Turns s id c c
  | start {work : Work} : c = .pending work → s.Starts id → Turns s id c .running
  | finish {r : Result} : c = .running → s.Ends id r → Turns s id c (.done r)

theorem coroutine_step (ho : s.InOrder others) (hc : s.world.coroutines[id]? = some c) :
    ∃ c', s.step.world.coroutines[id]? = some c' ∧ s.Turns id c c' := by
  obtain ⟨cs, htouches, hextends⟩ := s.coroutines_step
  have hid : id < s.world.coroutines.size := (Array.getElem?_eq_some_iff.1 hc).1
  cases htouches with
  | none => exact ⟨c, hextends.kept hc, .rest⟩
  | @start id' hstarts =>
    by_cases heq : id' = id
    · subst heq
      obtain ⟨x, name, span, ctx, work, hdrives, hpending⟩ := hstarts
      obtain rfl := Option.some.inj (hc.symm.trans hpending)
      exact ⟨.running, hextends.kept (by simp [hid]), .start rfl ⟨x, name, span, ctx, work, hdrives, hpending⟩⟩
    · exact ⟨c, hextends.kept ((Array.getElem?_setIfInBounds_ne heq).trans hc), .rest⟩
  | @finish id' r hends =>
    by_cases heq : id' = id
    · subst heq
      obtain ⟨completion, rest, hcontrol, hstack, hr⟩ := hends
      have hrunning : s.world.coroutines[id']? = some .running := by
        have hduty : Duty.coroutine id' ∈ s.duties + others := by
          rw [← push_onto hstack, duties_push_of_duty rfl]
          simp
        exact ho.isOpen _ hduty
      obtain rfl := Option.some.inj (hc.symm.trans hrunning)
      exact ⟨.done r, hextends.kept (by simp [hid]), .finish rfl ⟨completion, rest, hcontrol, hstack, hr⟩⟩
    · exact ⟨c, hextends.kept ((Array.getElem?_setIfInBounds_ne heq).trans hc), .rest⟩

lemma coroutine_fresh (hn : s.world.coroutines[id]? = none) (hc : s.step.world.coroutines[id]? = some c) :
    ∃ work, c = .pending work := by
  obtain ⟨cs, htouches, hextends⟩ := s.coroutines_step
  refine hextends.fresh ?_ hc
  cases htouches with
  | none => exact hn
  | start | finish => simpa using hn

structure Answers (s x : State) (id : Nat) (name : String) (span : Span) (ctx : Context) : Prop where
  pending {work : Work} : s.world.coroutines[id]? = some (.pending work) →
    s.step = ((x.setCoroutine id .running).push (.memoize id)).startWork span ctx work
  done {r : Result} : s.world.coroutines[id]? = some (.done r) →
    s.step = x.finish (.ofResult r) ∧ s.step.world = s.world
  running : s.world.coroutines[id]? = some .running →
    s.step = x.fail (.alreadyRunning name) span ctx ∧ s.step.world = s.world

theorem Drives.answers (h : s.Drives x id name span ctx) : s.Answers x id name span ctx := by
  have hw := h.world_eq
  refine ⟨fun hc => ?_, fun {r} hc => ?_, fun hc => ?_⟩
  · rw [h.step_eq, drive, hw, hc]
  · have hstep : s.step = x.finish (.ofResult r) := by rw [h.step_eq, drive, hw, hc]
    exact ⟨hstep, by rw [hstep]; exact hw⟩
  · have hstep : s.step = x.fail (.alreadyRunning name) span ctx := by rw [h.step_eq, drive, hw, hc]
    exact ⟨hstep, by rw [hstep]; exact hw⟩

end State

def Coroutine.hasStarted : Coroutine → Bool
  | .pending _ => false
  | .running | .done _ => true

namespace Machine

variable {m : Machine} {move : Move} {moves : List Move} {s : State} {id : Nat} {c : Coroutine}

lemma coroutine_move (move : Move) (hm : m.InOrder) (hc : m.world.coroutines[id]? = some c) :
    ∃ c', (m.move move).world.coroutines[id]? = some c' ∧ (c' = c ∨ ∃ s, m.mover? move = some s ∧ s.Turns id c c') := by
  cases hs : m.mover? move with
  | none =>
    refine ⟨c, ?_, .inl rfl⟩
    rcases move_of_no_mover hs with heq | ⟨source, program, rfl⟩
    · rw [heq]
      exact hc
    · rw [(m.agrees_of_launch source program).coroutines]
      exact hc
  | some s =>
    obtain ⟨others, ho⟩ := hm.mover hs
    rw [← world_mover hs] at hc
    obtain ⟨c', hc', hturns⟩ := State.coroutine_step ho hc
    refine ⟨c', ?_, .inr ⟨s, rfl, hturns⟩⟩
    rw [world_of_mover hs]
    exact hc'

lemma coroutine_fresh (hn : m.world.coroutines[id]? = none) (hc : (m.move move).world.coroutines[id]? = some c) :
    ∃ work, c = .pending work := by
  cases hs : m.mover? move with
  | none =>
    rcases move_of_no_mover hs with heq | ⟨source, program, rfl⟩
    · rw [heq] at hc
      exact nomatch hn.symm.trans hc
    · rw [(m.agrees_of_launch source program).coroutines] at hc
      exact nomatch hn.symm.trans hc
  | some s =>
    rw [world_of_mover hs] at hc
    rw [← world_mover hs] at hn
    exact State.coroutine_fresh hn hc

lemma coroutine_after (moves : List Move) (hm : m.InOrder) (hc : m.world.coroutines[id]? = some c)
    (hs : c.hasStarted = true) :
    ∃ c', (m.after moves).world.coroutines[id]? = some c' ∧ c'.hasStarted = true ∧ ∀ r, c = .done r → c' = .done r := by
  induction moves generalizing m c with
  | nil => exact ⟨c, hc, hs, fun _ h => h⟩
  | cons move moves ih =>
    obtain ⟨c', hc', hchange⟩ := coroutine_move move hm hc
    have hstarted : c'.hasStarted = true ∧ ∀ r, c = .done r → c' = .done r := by
      rcases hchange with rfl | ⟨s, -, hturns⟩
      · exact ⟨hs, fun _ h => h⟩
      · cases hturns with
        | rest => exact ⟨hs, fun _ h => h⟩
        | start heq | finish heq => exact ⟨rfl, fun r hr => nomatch hr.symm.trans heq⟩
    obtain ⟨c'', hc'', hstarted', hkept⟩ := ih (hm.moved move) hc' hstarted.1
    exact ⟨c'', hc'', hstarted', fun r hr => hkept r (hstarted.2 r hr)⟩

lemma not_starts_after (hm : m.InOrder) (hs : m.mover? move = some s) (hstarts : s.Starts id) {move' : Move}
    {s' : State}
    (hs' : (m.after (move :: moves)).mover? move' = some s') : ¬ s'.Starts id := by
  rintro ⟨-, -, -, -, work', -, hpending'⟩
  have hrunning : (m.move move).world.coroutines[id]? = some .running := by
    rw [world_of_mover hs]
    exact hstarts.running
  obtain ⟨c, hc, hstarted, -⟩ := coroutine_after moves (hm.moved move) hrunning rfl
  rw [world_mover hs'] at hpending'
  obtain rfl := Option.some.inj (hc.symm.trans hpending')
  contradiction

lemma pending_after {place place' depth : Nat} {work : Work} (hm : m.InOrder)
    (hc : m.world.coroutines[id]? = some (.pending work)) (hs : m.seatAfter depth place moves = some place')
    (hn : ∀ moment ∈ m.moments place moves, ¬ moment.state.Starts id) :
    (m.after moves).world.coroutines[id]? = some (.pending work) := by
  induction moves generalizing m place with
  | nil => exact hc
  | cons move moves ih =>
    simp only [seatAfter, Option.ite_none_left_eq_some, Option.bind_eq_some_iff] at hs
    obtain ⟨-, q, hq, hrest⟩ := hs
    rw [moments, hq] at hn
    refine ih (hm.moved move) ?_ hrest fun moment hmoment => hn moment (List.mem_append_right _ hmoment)
    obtain ⟨c', hc', rfl | ⟨s, hmover, hturns⟩⟩ := coroutine_move move hm hc
    · exact hc'
    · cases hturns with
      | rest => exact hc'
      | finish heq => contradiction
      | start _ hstarts =>
        have hmoment : (m.moment? place move).map Moment.state = some s := by
          cases move with
          | launch => contradiction
          | step => simp [moment?, hmover]
        obtain ⟨moment, hmem, rfl⟩ := Option.map_eq_some_iff.1 hmoment
        exact absurd hstarts (hn moment (List.mem_append_left _ (Option.mem_toList.2 hmem)))

end Machine

end ScriptMachine
