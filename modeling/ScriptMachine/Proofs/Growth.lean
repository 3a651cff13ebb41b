import ScriptMachine.Proofs.Histories

/-! What is shared only grows under the actions of a task: coroutines and outcomes that are there stay as they are, and
new coroutines are pending. -/

namespace ScriptMachine

def World.outcome? (w : World) : Producer → Option (Outcome × Bool)
  | .thread number => w.threads[number]?.map fun t => (t.outcome, t.watched)
  | .future id => w.futures[id]?.map fun f => (f.outcome, f.watched)

lemma State.outcome?_eq (s : State) (p : Producer) : s.outcome? p = s.world.outcome? p := by
  cases p <;> rfl

structure World.Grows (w w' : World) : Prop where
  coroutine {id : Nat} {c : Coroutine} : w.coroutines[id]? = some c → w'.coroutines[id]? = some c
  pending {id : Nat} {c : Coroutine} : w.coroutines[id]? = none → w'.coroutines[id]? = some c →
    ∃ work, c = .pending work
  namespaces : w'.namespaces = w.namespaces
  outcome {p : Producer} {o : Outcome × Bool} : w.outcome? p = some o → w'.outcome? p = some o
  fresh {p : Producer} {o : Outcome × Bool} : w.outcome? p = none → w'.outcome? p = some o → o = ({}, false)

namespace World.Grows

variable {w w' w'' : World}

lemma of_eq (hc : w'.coroutines = w.coroutines) (hn : w'.namespaces = w.namespaces) (ht : w'.threads = w.threads)
    (hf : w'.futures = w.futures) : w.Grows w' := by
  have houtcome (p : Producer) : w'.outcome? p = w.outcome? p := by
    cases p with
    | thread => simp only [outcome?, ht]
    | future => simp only [outcome?, hf]
  refine ⟨fun h => hc ▸ h, fun hnone hsome => ?_, hn, fun h => (houtcome _).trans h, fun hnone hsome => ?_⟩
  · rw [hc, hnone] at hsome
    contradiction
  · rw [houtcome, hnone] at hsome
    contradiction

lemma refl : w.Grows w := of_eq rfl rfl rfl rfl

lemma trans (h : w.Grows w') (h' : w'.Grows w'') : w.Grows w'' where
  coroutine hc := h'.coroutine (h.coroutine hc)
  pending {id c} hnone hsome := by
    cases hmiddle : w'.coroutines[id]? with
    | none => exact h'.pending hmiddle hsome
    | some c' =>
      obtain rfl := Option.some.inj ((h'.coroutine hmiddle).symm.trans hsome)
      exact h.pending hnone hmiddle
  namespaces := h'.namespaces.trans h.namespaces
  outcome ho := h'.outcome (h.outcome ho)
  fresh {p o} hnone hsome := by
    cases hmiddle : w'.outcome? p with
    | none => exact h'.fresh hmiddle hsome
    | some o' =>
      obtain rfl := Option.some.inj ((h'.outcome hmiddle).symm.trans hsome)
      exact h.fresh hnone hmiddle

end World.Grows

namespace World

lemma Agrees.grows {w w' : World} (h : w'.Agrees w) : w.Grows w' := .of_eq h.coroutines h.namespaces h.threads h.futures

lemma getElem?_push_of_some {α : Type} {xs : Array α} {i : Nat} {a b : α} (h : xs[i]? = some a) :
    (xs.push b)[i]? = some a := by
  obtain ⟨hi, -⟩ := Array.getElem?_eq_some_iff.1 h
  rw [Array.getElem?_push, if_neg (Nat.ne_of_lt hi)]
  exact h

lemma eq_of_getElem?_push {α : Type} {xs : Array α} {i : Nat} {a b : α} (hn : xs[i]? = none)
    (h : (xs.push b)[i]? = some a) : a = b := by
  rw [Array.getElem?_push] at h
  split at h
  · exact (Option.some.inj h).symm
  · rw [hn] at h
    contradiction

end World

namespace State

open World

variable {name : String} {span : Span} {ctx : Context} {ns : Namespace} {number : Nat} {p : Producer} {L : Leeway}
  {s s' : State}

lemma grows_newCoroutine {work : Work} : s.world.Grows (s.newCoroutine name work).2.world where
  coroutine := getElem?_push_of_some
  pending hnone hsome := ⟨work, eq_of_getElem?_push hnone hsome⟩
  namespaces := rfl
  outcome {p _} h := by cases p <;> exact h
  fresh {p _} hnone hsome := by cases p <;> exact nomatch hnone.symm.trans hsome

lemma outcome?_cancelThread : (s.cancelThread number).world.outcome? p = s.world.outcome? p := by
  cases p with
  | future => rfl
  | thread number' =>
    simp only [World.outcome?, cancelThread, Array.getElem?_modify]
    split
    · rw [Option.map_map]
      rfl
    · rfl

lemma grows_cancelThread : s.world.Grows (s.cancelThread number).world where
  coroutine h := h
  pending hnone hsome := nomatch hnone.symm.trans hsome
  namespaces := rfl
  outcome h := outcome?_cancelThread.trans h
  fresh hnone hsome := nomatch hnone.symm.trans (outcome?_cancelThread.symm.trans hsome)

lemma grows_addThread : s.world.Grows s.addThread.world where
  coroutine h := h
  pending hnone hsome := nomatch hnone.symm.trans hsome
  namespaces := rfl
  outcome {p o} h := by
    cases p with
    | future => exact h
    | thread number =>
      obtain ⟨t, ht, rfl⟩ := Option.map_eq_some_iff.1 h
      exact Option.map_eq_some_iff.2 ⟨t, getElem?_push_of_some ht, rfl⟩
  fresh {p o} hnone hsome := by
    cases p with
    | future => exact nomatch hnone.symm.trans hsome
    | thread number =>
      obtain ⟨t, ht, rfl⟩ := Option.map_eq_some_iff.1 hsome
      obtain rfl := eq_of_getElem?_push (Option.map_eq_none_iff.1 hnone) ht
      rfl

lemma grows_addFuture : s.world.Grows s.addFuture.world where
  coroutine h := h
  pending hnone hsome := nomatch hnone.symm.trans hsome
  namespaces := rfl
  outcome {p o} h := by
    cases p with
    | thread => exact h
    | future id =>
      obtain ⟨f, hf, rfl⟩ := Option.map_eq_some_iff.1 h
      exact Option.map_eq_some_iff.2 ⟨f, getElem?_push_of_some hf, rfl⟩
  fresh {p o} hnone hsome := by
    cases p with
    | thread => exact nomatch hnone.symm.trans hsome
    | future id =>
      obtain ⟨f, hf, rfl⟩ := Option.map_eq_some_iff.1 hsome
      obtain rfl := eq_of_getElem?_push (Option.map_eq_none_iff.1 hnone) hf
      rfl

lemma Prepares.grows (h : s.Prepares L s') : s.world.Grows s'.world := by
  induction h with
  | refl => exact .refl
  | share _ hw ih => exact ih.trans hw.grows
  | coroutine name work _ ih => exact ih.trans grows_newCoroutine
  | cancel number _ ih => exact ih.trans grows_cancelThread
  | thread _ _ ih => exact ih.trans (grows_addThread.trans (.of_eq rfl rfl rfl rfl))
  | pool _ _ ih | tend _ _ _ _ ih => exact ih.trans (.of_eq rfl rfl rfl rfl)
  | enqueue _ _ _ ih | employ _ _ _ _ _ ih => exact ih.trans (grows_addFuture.trans (.of_eq rfl rfl rfl rfl))
  | push _ _ _ ih | keep _ _ ih | enterModule _ _ ih => exact ih

lemma world_enterBody {c : Closure} {inner : Context} : (s.enterBody c inner).world = s.world := by
  unfold enterBody
  dsimp only
  split <;> rfl

lemma world_drive {id : Nat} {name : String} {span : Span} {ctx : Context} :
    (∃ work, s.world.coroutines[id]? = some (.pending work) ∧
        (s.drive id name span ctx).world = (s.setCoroutine id .running).world) ∨
      (∀ work, s.world.coroutines[id]? ≠ some (.pending work)) ∧ (s.drive id name span ctx).world = s.world := by
  unfold drive
  split
  · rename_i work hwork
    refine .inl ⟨work, hwork, ?_⟩
    cases work with
    | call closure inner => exact world_enterBody
    | receive | background | timer => rfl
  · rename_i r hr
    exact .inr ⟨fun work hwork => (nomatch hr.symm.trans hwork), rfl⟩
  · rename_i hpending _
    exact .inr ⟨hpending, rfl⟩

lemma world_readMember : (s.readMember ns name span ctx).world = s.world := by
  unfold readMember
  split <;> rfl

lemma world_namespaceNext {nodes : List Node} : (s.namespaceNext ns name span ctx nodes).world = s.world := by
  cases nodes with
  | nil => exact world_readMember
  | cons n nodes => rfl

def startNamespace (s : State) (id : Nat) : State :=
  { s with world := { s.world with namespaces := s.world.namespaces.setIfInBounds id true } }

lemma member_namespace {id : Nat} :
    s.member (.namespace_ id ns) name span ctx = if s.world.namespaces.getD id true then s.readMember ns name span ctx
      else (s.startNamespace id).namespaceNext ns name span ctx ns.body := rfl

lemma world_member {id : Nat} : (s.member (.namespace_ id ns) name span ctx).world =
      if s.world.namespaces.getD id true then s.world else (s.startNamespace id).world := by
  rw [member_namespace]
  split
  · exact world_readMember
  · exact world_namespaceNext

lemma world_answered {limit : Option Nat} {a : Answer} : (s.answered p limit span ctx a).world = s.world := by
  unfold answered
  split <;> rfl

lemma Does.grows (h : s.Does L s') : s.world.Grows s'.world := by
  cases h with
  | finish hx _ | call hx | wait hx | eval hx _ _ _ | enter hx _ _ => exact hx.grows
  | body hx =>
    rw [world_enterBody]
    exact hx.grows

end State

end ScriptMachine
