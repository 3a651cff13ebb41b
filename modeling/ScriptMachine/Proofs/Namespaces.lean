import ScriptMachine.Proofs.Duties
import ScriptMachine.Proofs.Passages
import ScriptMachine.Proofs.Mirror

/-! The body of a namespace runs once, from the first access to a member of the namespace on. -/

namespace ScriptMachine

open List

def Namespace.read (ns : Namespace) (t : Tables) (name : String) (span : Span) (ctx : Context) : Completion :=
  match (t.table (ns.context.scope.headD 0)).get? name with
  | some v => .value v
  | none => .error ((Fault.notAMember name ns.name).at_ span ctx)

namespace State

/-- An access to a member of a namespace, above some frames. -/
structure Access where
  id : Nat
  ns : Namespace
  name : String
  span : Span
  ctx : Context
  rest : List Frame

variable {p : Producer} {s s' : State} {a : Access} {id : Nat} {ns : Namespace} {name : String} {span : Span}
  {ctx : Context}

def newNamespace (s : State) (name : String) (body : List Node) (span : Span) (ctx : Context) : Namespace :=
  ⟨name, body, (Context.nest name ctx (some ctx) span s.world.tables).1⟩

def Defines (s : State) (id : Nat) (ns : Namespace) : Prop :=
  ∃ name body span ctx, s.task.control = .eval (.namespace_ name body span) ctx ∧ id = s.world.namespaces.size ∧
    ns = s.newNamespace name body span ctx

structure Accesses (s : State) (a : Access) : Prop where
  control : s.task.control = .done (.value (.namespace_ a.id a.ns))
  stack : s.task.stack = .member a.name a.span a.ctx :: a.rest

def accessed? (s : State) : Option Access :=
  match s.task.control, s.task.stack with
  | .done (.value (.namespace_ id ns)), .member name span ctx :: rest => some ⟨id, ns, name, span, ctx, rest⟩
  | _, _ => none

lemma accessed?_eq_some_iff : s.accessed? = some a ↔ s.Accesses a := by
  refine ⟨fun h => ?_, fun h => ?_⟩
  · unfold accessed? at h
    split at h
    · rename_i hcontrol hstack
      cases h
      exact ⟨hcontrol, hstack⟩
    · contradiction
  · simp only [accessed?, h.control, h.stack]

lemma accesses_of_id (h : s.accessed?.map Access.id = some id) : ∃ a, s.Accesses a ∧ a.id = id := by
  simpa only [Option.map_eq_some_iff, accessed?_eq_some_iff] using h

instance : Decidable (∃ a, s.Accesses a ∧ a.id = id) :=
  decidable_of_iff (s.accessed?.map Access.id = some id) (by simp only [Option.map_eq_some_iff, accessed?_eq_some_iff])

def Opens (s : State) (a : Access) : Prop := s.Accesses a ∧ s.world.namespaces[a.id]? = some false

/-- The member is read, or found missing. -/
def answer (s : State) (a : Access) : State :=
  (s.onto a.rest).finish (a.ns.read s.world.tables a.name a.span a.ctx)

lemma readMember_eq : s.readMember ns name span ctx = s.finish (ns.read s.world.tables name span ctx) := by
  unfold readMember Namespace.read
  cases (s.world.tables.table (ns.context.scope.headD 0)).get? name <;> rfl

lemma Accesses.step_eq (h : s.Accesses a) :
    s.step = (s.onto a.rest).member (.namespace_ a.id a.ns) a.name a.span a.ctx := by
  rw [step_of_done h.control h.stack]
  rfl

lemma Accesses.step_of_set (h : s.Accesses a) (hflag : s.world.namespaces.getD a.id true = true) :
    s.step = s.answer a := by
  have hset : (s.onto a.rest).world.namespaces.getD a.id true = true := hflag
  rw [h.step_eq, member_namespace, if_pos hset, readMember_eq]
  rfl

lemma Accesses.step_of_unset (h : s.Accesses a) (hflag : s.world.namespaces[a.id]? = some false) :
    s.step = ((s.onto a.rest).startNamespace a.id).namespaceNext a.ns a.name a.span a.ctx a.ns.body := by
  have hunset : ¬ (s.onto a.rest).world.namespaces.getD a.id true = true := by
    simp [onto, Array.getD_eq_getD_getElem?, hflag]
  rw [h.step_eq, member_namespace, if_neg hunset]

lemma Accesses.step_of_flag (h : s.Accesses a) (hflag : s.world.namespaces[a.id]? = some true) : s.step = s.answer a :=
  h.step_of_set (by simp [Array.getD_eq_getD_getElem?, hflag])

lemma flag_of_getD {flags : Array Bool} (h : ¬ flags.getD id true = true) : flags[id]? = some false := by
  rw [Array.getD_eq_getD_getElem?] at h
  cases hflag : flags[id]? with
  | none => simp [hflag] at h
  | some flag => simpa [hflag] using h

lemma Defines.step_task (h : s.Defines id ns) : s.step.task = (s.value (.namespace_ id ns)).task := by
  obtain ⟨name, body, span, ctx, hcontrol, rfl, rfl⟩ := h
  simp only [step, hcontrol]
  rfl

lemma Defines.step_namespaces (h : s.Defines id ns) : s.step.world.namespaces = s.world.namespaces.push false := by
  obtain ⟨name, body, span, ctx, hcontrol, -⟩ := h
  simp only [step, hcontrol]
  rfl

lemma Defines.step_tables (h : s.Defines id ns) :
    s.step.world.tables.tables.size = s.world.tables.tables.size + 2 := by
  obtain ⟨name, body, span, ctx, hcontrol, -⟩ := h
  have hassign : s.step.world.tables = ctx.assign (Context.nest name ctx (some ctx) span s.world.tables).2 name
      (.namespace_ s.world.namespaces.size (s.newNamespace name body span ctx)) := by
    simp only [step, hcontrol]
    rfl
  rw [hassign, Context.assign, Tables.size_set, Tables.size_set, Context.size_nest]

lemma Defines.scope_eq (h : s.Defines id ns) : ns.context.scope.headD 0 = s.world.tables.tables.size := by
  obtain ⟨name, body, span, ctx, -, -, rfl⟩ := h
  rw [newNamespace, Context.scope_nest]
  rfl

lemma Defines.eq (h : s.Defines id ns) {id' : Nat} {ns' : Namespace} (h' : s.Defines id' ns') : id = id' ∧
    ns = ns' := by
  obtain ⟨name, body, span, ctx, hcontrol, rfl, rfl⟩ := h
  obtain ⟨name', body', span', ctx', hcontrol', rfl, rfl⟩ := h'
  obtain ⟨hnode, rfl⟩ := Control.eval.inj (hcontrol.symm.trans hcontrol')
  obtain ⟨rfl, rfl, rfl⟩ := Node.namespace_.inj hnode
  exact ⟨rfl, rfl⟩

lemma namespaces_setOutcome {o : Outcome} {watched : Bool} :
    (s.setOutcome p o watched).world.namespaces = s.world.namespaces := by
  cases p <;> rfl

lemma namespaces_unwound : s.unwound.world.namespaces = s.world.namespaces := by
  unfold unwound
  split
  · rename_i c f rest _ _
    cases f with
    | threadEnd | jobEnd =>
      unfold unwind
      dsimp only
      split
      · exact namespaces_setOutcome
      · rfl
    | _ => rfl
  · rfl

lemma namespaces_nextJob {pool : Nat} : (s.nextJob pool).world.namespaces = s.world.namespaces := by
  unfold nextJob
  split
  · split <;> rfl
  · rfl

lemma namespaces_look {limit until_ : Option Nat} :
    (s.look p limit until_ span ctx).world.namespaces = s.world.namespaces := by
  unfold look
  split
  · rw [world_answered]
  · split
    · split
      · rw [world_answered, namespaces_setOutcome]
      · exact namespaces_setOutcome
    · rw [world_answered, namespaces_setOutcome]

lemma namespaces_drive : (s.drive id name span ctx).world.namespaces = s.world.namespaces := by
  rcases @world_drive s id name span ctx with ⟨-, -, hw⟩ | ⟨-, hw⟩
  · rw [hw]
    rfl
  · rw [hw]

inductive Marks (s : State) : Array Bool → Prop
  | none : Marks s s.world.namespaces
  | define {id : Nat} {ns : Namespace} : s.Defines id ns → Marks s (s.world.namespaces.push false)
  | start {a : Access} : s.Opens a → Marks s (s.world.namespaces.setIfInBounds a.id true)

lemma Accesses.marks (h : s.Accesses a) : s.Marks s.step.world.namespaces := by
  by_cases hset : s.world.namespaces.getD a.id true = true
  · rw [h.step_of_set hset]
    exact .none
  · rw [h.step_of_unset (flag_of_getD hset), world_namespaceNext]
    exact .start ⟨h, flag_of_getD hset⟩

/-- The body's first statement comes next, in the context of the namespace; if there is none, the member is read. -/
def StartsBody (s : State) (a : Access) : Prop :=
  s.step.world = (s.startNamespace a.id).world ∧
    match a.ns.body with
    | [] => s.step.task = (s.answer a).task
    | statement :: nodes => s.step.task.control = .eval statement a.ns.context ∧
        s.step.task.stack = .namespaceBody a.ns statement nodes a.name a.span a.ctx :: a.rest

lemma Accesses.startsBody (h : s.Accesses a) (hflag : s.world.namespaces[a.id]? = some false) : s.StartsBody a := by
  rw [StartsBody, h.step_of_unset hflag, world_namespaceNext]
  refine ⟨rfl, ?_⟩
  cases a.ns.body with
  | nil =>
    rw [namespaceNext, readMember_eq]
    rfl
  | cons statement nodes => exact ⟨rfl, rfl⟩

lemma marks_step : s.Marks s.step.world.namespaces := by
  have hmoves : s.Moves .any s.step := step_moves fun _ _ => trivial
  generalize hs' : s.step = s' at hmoves
  have hsame (h : s'.world.namespaces = s.world.namespaces) : s.Marks s'.world.namespaces := h ▸ .none
  cases hmoves with
  | rest => exact .none
  | act h => exact hsame (h.grows.namespaces.trans namespaces_unwound)
  | drive h => exact hsame (namespaces_drive.trans (congrArg World.namespaces h.world_eq))
  | @define name body span ctx hc =>
    have hdefines : s.Defines s.world.namespaces.size (s.newNamespace name body span ctx) :=
      ⟨name, body, span, ctx, hc, rfl, rfl⟩
    rw [← hs', hdefines.step_namespaces]
    exact .define hdefines
  | access hc hs =>
    rw [← hs']
    exact Accesses.marks (a := ⟨_, _, _, _, _, _⟩) ⟨hc, hs⟩
  | proceed => exact hsame (congrArg World.namespaces world_namespaceNext)
  | look => exact hsame namespaces_look
  | query => exact hsame namespaces_setOutcome
  | job => exact hsame (namespaces_nextJob.trans namespaces_unwound)

lemma size_namespaces_step : s.world.namespaces.size ≤ s.step.world.namespaces.size := by
  have hmarks : s.Marks s.step.world.namespaces := marks_step
  generalize s.step.world.namespaces = flags at hmarks
  cases hmarks with
  | none => exact le_rfl
  | define | start => simp

lemma flag_step (h : s.world.namespaces[id]? = some true) : s.step.world.namespaces[id]? = some true := by
  have hid : id < s.world.namespaces.size := (Array.getElem?_eq_some_iff.1 h).1
  have hmarks : s.Marks s.step.world.namespaces := marks_step
  generalize s.step.world.namespaces = flags at hmarks
  cases hmarks with
  | none => exact h
  | define => exact World.getElem?_push_of_some h
  | @start a _ =>
    by_cases heq : a.id = id
    · simp [heq, hid]
    · exact (Array.getElem?_setIfInBounds_ne heq).trans h

lemma opens_of_flag_step (h : s.step.world.namespaces[id]? = some true) :
    s.world.namespaces[id]? = some true ∨ ∃ a, s.Opens a ∧ a.id = id := by
  have hmarks : s.Marks s.step.world.namespaces := marks_step
  generalize s.step.world.namespaces = flags at hmarks h
  cases hmarks with
  | none => exact .inl h
  | define =>
    rw [Array.getElem?_push] at h
    split at h
    · exact nomatch Option.some.inj h
    · exact .inl h
  | @start a hopens =>
    by_cases heq : a.id = id
    · exact .inr ⟨a, hopens, heq⟩
    · exact .inl ((Array.getElem?_setIfInBounds_ne heq).symm.trans h)

lemma Accesses.flag_step (h : s.Accesses a) (hid : a.id < s.world.namespaces.size) :
    s.step.world.namespaces[a.id]? = some true := by
  by_cases hset : s.world.namespaces.getD a.id true = true
  · refine State.flag_step ?_
    simpa [Array.getD_eq_getD_getElem?, hid] using hset
  · rw [h.step_of_unset (flag_of_getD hset), world_namespaceNext]
    simp [startNamespace, onto, hid]

end State

def Frame.body? : Frame → Option (Namespace × List Node)
  | .namespaceBody ns current rest _ _ _ => some (ns, current :: rest)
  | _ => none

/-- Namespaces with the statements of their bodies that are not done. -/
abbrev Bodies := Multiset (Namespace × List Node)

def Task.bodies (t : Task) : Bodies := t.stack.filterMap Frame.body?

lemma Frame.body?_of_unit? {f : Frame} (h : f.unit? = none) : f.body? = none := by
  cases f with
  | namespaceBody => contradiction
  | _ => rfl

lemma Task.bodies_of_starting {C : Contents} {t : Task} (h : C.starting t) : t.bodies = 0 := by
  obtain ⟨callee, args, kwargs, span, ctx, last, -, hstack, -, -, -, ⟨number, rfl⟩ | ⟨future, pool, rfl⟩⟩ := h <;>
    rw [Task.bodies, hstack] <;> rfl

inductive Works (opens : State.Access → Prop) (bodies : Bodies) : Bodies → Prop
  | leave {bodies' : Bodies} : bodies' ≤ bodies → Works opens bodies bodies'
  | start {a : State.Access} : opens a → Works opens bodies ((a.ns, a.ns.body) ::ₘ bodies)
  | next {ns : Namespace} {n : Node} {nodes : List Node} {others : Bodies} :
      bodies = (ns, n :: nodes) ::ₘ others → Works opens bodies ((ns, nodes) ::ₘ others)

section works

variable {opens opens' : State.Access → Prop} {bodies bodies' : Bodies} (h : Works opens bodies bodies')
include h

lemma Works.imp (hi : ∀ a, opens a → opens' a) : Works opens' bodies bodies' := by
  cases h with
  | leave hle => exact .leave hle
  | start hopens => exact .start (hi _ hopens)
  | next heq => exact .next heq

lemma Works.add (others : Bodies) : Works opens (bodies + others) (bodies' + others) := by
  cases h with
  | leave hle => exact .leave (add_le_add_left hle others)
  | start hopens =>
    rw [Multiset.cons_add]
    exact .start hopens
  | next heq =>
    rw [heq, Multiset.cons_add, Multiset.cons_add]
    exact .next rfl

end works

namespace State

variable {L : Leeway} {s x s' : State} {a : Access} {id : Nat} {ns : Namespace} {name : String} {span : Span}
  {ctx : Context} {rest new : List Frame}

lemma bodies_of_stack_eq (h : s'.task.stack = s.task.stack) : s'.task.bodies = s.task.bodies := by
  rw [Task.bodies, h, Task.bodies]

lemma bodies_push {f : Frame} (hf : f.body? = none) : (s.push f).task.bodies = s.task.bodies := by
  simp only [Task.bodies, push, filterMap_cons_none hf]

lemma Lays.bodies_eq (h : Lays L new s x) : x.task.bodies = s.task.bodies := by
  have hnew : new.filterMap Frame.body? = [] :=
    filterMap_eq_nil_iff.2 fun f hf => Frame.body?_of_unit? (h.lets f hf).unit
  rw [Task.bodies, h.stack, filterMap_append, hnew, nil_append, Task.bodies]

lemma bodies_enterBody {c : Closure} {inner : Context} : (s.enterBody c inner).task.bodies = s.task.bodies := by
  unfold enterBody
  dsimp only
  split
  · rfl
  · exact bodies_push (f := .functionBody c inner) rfl

lemma bodies_drive : (s.drive id name span ctx).task.bodies = s.task.bodies := by
  unfold drive
  split
  · rename_i work _
    have hmemoize : ((s.setCoroutine id .running).push (.memoize id)).task.bodies = s.task.bodies := bodies_push rfl
    cases work with
    | call c inner => exact bodies_enterBody.trans hmemoize
    | receive | background | timer => exact hmemoize
  · rfl
  · rfl

lemma bodies_readMember : (s.readMember ns name span ctx).task.bodies = s.task.bodies := by
  rw [readMember_eq]
  rfl

lemma bodies_namespaceNext {n : Node} {nodes : List Node} :
    (s.namespaceNext ns name span ctx (n :: nodes)).task.bodies = (ns, n :: nodes) ::ₘ s.task.bodies := by
  simp only [Task.bodies, namespaceNext, eval, push,
    filterMap_cons_some (f := Frame.body?) (a := .namespaceBody ns n nodes name span ctx) rfl, Multiset.cons_coe]

lemma Does.bodies_eq (h : s.Does L s') : s'.task.bodies = s.task.bodies := by
  cases h with
  | finish hx | call hx | wait hx =>
    obtain ⟨new, hnew⟩ := hx.lays
    exact hnew.bodies_eq
  | @eval x f n ctx hx hf | @enter x f n ctx hx hf =>
    obtain ⟨new, hnew⟩ := hx.lays
    have hbody : f.body? = none := by
      cases f with
      | namespaceBody => contradiction
      | _ => rfl
    exact (bodies_push hbody).trans hnew.bodies_eq
  | body hx =>
    obtain ⟨new, hnew⟩ := hx.lays
    exact bodies_enterBody.trans hnew.bodies_eq

lemma bodies_onto {f : Frame} (hs : s.task.stack = f :: rest) : (s.onto rest).task.bodies ≤ s.task.bodies := by
  rw [Task.bodies, Task.bodies, hs]
  exact Multiset.coe_le.2 ((sublist_cons_self f rest).filterMap Frame.body?).subperm

lemma bodies_unwound : s.unwound.task.bodies ≤ s.task.bodies := by
  unfold unwound
  split
  · rename_i c f rest _ hs
    rw [bodies_of_stack_eq stack_unwind]
    exact bodies_onto hs
  · exact le_rfl

lemma bodies_nextJob {pool : Nat} : (s.nextJob pool).task.bodies ≤ s.task.bodies := by
  unfold nextJob
  split
  · split
    · exact Multiset.zero_le _
    · exact le_rfl
  · exact le_rfl

lemma Accesses.works (h : s.Accesses a) : Works s.Opens s.task.bodies s.step.task.bodies := by
  have honto : (s.onto a.rest).task.bodies = s.task.bodies := by
    simp only [Task.bodies, onto, h.stack,
      filterMap_cons_none (f := Frame.body?) (a := .member a.name a.span a.ctx) rfl]
  by_cases hset : s.world.namespaces.getD a.id true = true
  · rw [h.step_of_set hset]
    exact .leave honto.le
  · have hstarted : ((s.onto a.rest).startNamespace a.id).task.bodies = s.task.bodies := honto
    rw [h.step_of_unset (flag_of_getD hset)]
    cases hbody : a.ns.body with
    | nil => exact .leave (bodies_readMember.trans hstarted).le
    | cons n nodes =>
      rw [bodies_namespaceNext, hstarted, ← hbody]
      exact .start ⟨h, flag_of_getD hset⟩

lemma works_step : Works s.Opens s.task.bodies s.step.task.bodies := by
  have hmoves : s.Moves .any s.step := step_moves fun _ _ => trivial
  generalize hs' : s.step = s' at hmoves
  cases hmoves with
  | rest | define => exact .leave le_rfl
  | act h => exact .leave (h.bodies_eq.trans_le bodies_unwound)
  | drive h =>
    obtain ⟨new, hnew⟩ := h.lays (L := .any)
    exact .leave ((bodies_drive.trans hnew.bodies_eq).trans_le bodies_unwound)
  | access hc hs =>
    rw [← hs']
    exact Accesses.works (a := ⟨_, _, _, _, _, _⟩) ⟨hc, hs⟩
  | @proceed ns current nodes name span ctx rest v hc hs =>
    have hbodies : s.task.bodies = (ns, current :: nodes) ::ₘ (s.onto rest).task.bodies := by
      simp only [Task.bodies, onto, hs, Multiset.cons_coe,
        filterMap_cons_some (f := Frame.body?) (a := .namespaceBody ns current nodes name span ctx) rfl]
    cases nodes with
    | nil => exact .leave (bodies_readMember.trans_le (bodies_onto hs))
    | cons n nodes =>
      rw [bodies_namespaceNext]
      exact .next hbodies
  | look =>
    have hlays : Lays .any [] s s := .refl
    exact .leave (bodies_of_stack_eq hlays.look.stack).le
  | @query p => exact .leave (bodies_of_stack_eq (by cases p <;> rfl)).le
  | job => exact .leave (bodies_nextJob.trans bodies_unwound)

end State

def origins (defined : Nat → Namespace → Prop) (tables : Nat) : Policy where
  closure _ := True
  space := defined
  deferred _ _ := True
  place _ _ := True
  failure _ := True
  code _ _ := True
  binds _ _ := True
  tables t := tables ≤ t.tables.size
  sees s := ∀ id ns, s.Defines id ns → defined id ns

lemma size_moduleContext {s : State} {name : String} {source : Source} {parent : Option Context} {span : Span}
    {isMain : Bool} : (s.moduleContext name source parent span isMain).2.world.tables.tables.size =
      s.world.tables.tables.size + 1 := by
  simp only [State.moduleContext, State.onTables, Tables.size_set, Context.size_ofModule]

lemma Session.size_entry (s : Session) (source : Source) :
    (s.entry source).2.world.tables.tables.size = s.world.tables.tables.size + 1 := size_moduleContext

lemma origins_lawful {defined : Nat → Namespace → Prop} {tables : Nat} : (origins defined tables).Lawful where
  run _ := trivial
  part _ _ := trivial
  target _ _ := trivial
  span _ := trivial
  failure _ := trivial
  stray _ _ _ _ _ _ := trivial
  function _ := trivial
  default _ _ := trivial
  enter _ _ ht := by
    refine ⟨?_, trivial, trivial, fun _ _ => trivial, fun _ => trivial⟩
    exact (ht.trans (Nat.le_add_right _ 2)).trans_eq Context.size_nest.symm
  drive _ := trivial
  assign _ ht := ht.trans_eq (Tables.size_set.trans Tables.size_set).symm
  remove _ ht := ht.trans_eq (Tables.size_erase.trans Tables.size_erase).symm
  declare _ _ hdeclared ht := ht.trans_eq (congrArg Array.size (Context.tables_of_declare hdeclared)).symm
  define hs hcontrol _ ht :=
    ⟨(ht.trans (Nat.le_add_right _ 2)).trans_eq Context.size_nest.symm, hs _ _ ⟨_, _, _, _, hcontrol, rfl, rfl⟩⟩
  member _ := fun _ _ => trivial
  load _ _ _ _ ht := ⟨(ht.trans (Nat.le_add_right _ 1)).trans_eq size_moduleContext.symm, fun _ _ => trivial⟩

namespace Machine

variable {b m : Machine} {move : Move} {moves : List Move} {s : State} {a : State.Access} {id id' : Nat}
  {ns ns' : Namespace}

def Defined (b : Machine) (moves : List Move) (id : Nat) (ns : Namespace) : Prop := ∃ s ∈ b.movers moves,
    s.Defines id ns

def Accessed (b : Machine) (moves : List Move) (id : Nat) : Prop :=
  ∃ s ∈ b.movers moves, ∃ a, s.Accesses a ∧ a.id = id

instance : Decidable (b.Accessed moves id) :=
  inferInstanceAs (Decidable (∃ s ∈ b.movers moves, ∃ a, s.Accesses a ∧ a.id = id))

def bodies (m : Machine) : Bodies := (m.tasks.map Task.bodies).sum

def IsFresh (b : Machine) : Prop := ∃ settings argv files input, b = boot settings argv files input

lemma defined_concat : b.Defined (moves ++ [move]) id ns ↔
    b.Defined moves id ns ∨ ∃ s, (b.after moves).mover? move = some s ∧ s.Defines id ns := by
  simp only [Defined, mem_movers_concat, or_and_right, exists_or]

lemma accessed_concat : b.Accessed (moves ++ [move]) id ↔
    b.Accessed moves id ∨ ∃ s, (b.after moves).mover? move = some s ∧ ∃ a, s.Accesses a ∧ a.id = id := by
  simp only [Accessed, mem_movers_concat, or_and_right, exists_or]

def Begun (b : Machine) (moves : List Move) (x : Namespace × List Node) : Prop :=
  ∃ id, b.Defined moves id x.1 ∧ b.Accessed moves id ∧ x.2 <:+ x.1.body

lemma Begun.concat {x : Namespace × List Node} (h : b.Begun moves x) : b.Begun (moves ++ [move]) x := by
  obtain ⟨id, hdefined, haccessed, hsuffix⟩ := h
  exact ⟨id, defined_concat.2 (.inl hdefined), accessed_concat.2 (.inl haccessed), hsuffix⟩

lemma namespaces_of_no_mover (hs : m.mover? move = none) : (m.move move).world.namespaces = m.world.namespaces := by
  rcases move_of_no_mover hs with heq | ⟨source, program, rfl⟩
  · rw [heq]
  · exact (m.agrees_of_launch source program).namespaces

lemma size_namespaces_move : m.world.namespaces.size ≤ (m.move move).world.namespaces.size := by
  cases hs : m.mover? move with
  | none => rw [namespaces_of_no_mover hs]
  | some s =>
    rw [world_of_mover hs, ← world_mover hs]
    exact State.size_namespaces_step

namespace IsFresh

variable (hb : b.IsFresh)
include hb

lemma holds_origins {defined : Nat → Namespace → Prop} (hd : ∀ id ns, b.Defined moves id ns → defined id ns) :
    (b.after moves).Holds (origins defined 0).shared ((origins defined 0).task []) := by
  obtain ⟨settings, argv, files, input, rfl⟩ := hb
  refine (holds_boot (Nat.zero_le _)).after_of origins_lawful (fun s hs id ns hdefines => hd id ns ⟨s, hs, hdefines⟩) ?_
  exact fun _ _ _ _ _ => ⟨Nat.zero_le _, fun _ _ => trivial⟩

lemma holds_any (moves : List Move) :
    (b.after moves).Holds (origins (fun _ _ => True) 0).shared ((origins (fun _ _ => True) 0).task []) :=
  hb.holds_origins fun _ _ _ => trivial

lemma defined_of_accesses (hs : (b.after moves).mover? move = some s) (h : s.Accesses a) :
    b.Defined moves a.id a.ns := by
  obtain ⟨before, t, after, left, htasks, hcontrol, -⟩ := tasks_of_mover hs
  have hholds : (b.after moves).Holds (origins (b.Defined moves) 0).shared ((origins (b.Defined moves) 0).task []) :=
    hb.holds_origins fun _ _ h => h
  have ht := (hholds.2 t (by simp [htasks])).2
  rw [← hcontrol, h.control] at ht
  exact ht

lemma tables_move : (b.after moves).world.tables.tables.size ≤
    ((b.after moves).move move).world.tables.tables.size := by
  have hnow : (b.after moves).Holds (origins (fun _ _ => True) (b.after moves).world.tables.tables.size).shared
      ((origins (fun _ _ => True) (b.after moves).world.tables.tables.size).task []) := by
    have hholds := hb.holds_any moves
    exact ⟨⟨hholds.1.1, le_rfl⟩, hholds.2⟩
  refine (hnow.move_of origins_lawful (fun _ _ _ _ _ => trivial) fun source _ _ => ⟨?_, fun _ _ => trivial⟩).1.2
  exact (Nat.le_add_right _ 1).trans_eq (Session.size_entry (Session.ofMachine (b.after moves)) source).symm

lemma lt_of_defined (h : b.Defined moves id ns) : id < (b.after moves).world.namespaces.size ∧
    ns.context.scope.headD 0 < (b.after moves).world.tables.tables.size := by
  induction moves using reverseRecOn with
  | nil =>
    obtain ⟨s, hs, -⟩ := h
    contradiction
  | append_singleton moves move ih =>
    rw [after_concat]
    rcases defined_concat.1 h with h | ⟨s, hs, hdefines⟩
    · exact ⟨(ih h).1.trans_le size_namespaces_move, (ih h).2.trans_le hb.tables_move⟩
    · rw [world_of_mover hs]
      dsimp only
      rw [hdefines.step_namespaces, hdefines.step_tables, hdefines.scope_eq, Array.size_push]
      obtain ⟨-, -, -, -, -, rfl, -⟩ := hdefines
      omega

lemma ne_of_defines (hs : (b.after moves).mover? move = some s) (h : s.Defines id ns) (h' : b.Defined moves id' ns') :
    id ≠ id' ∧ ns ≠ ns' := by
  obtain ⟨hid, hscope⟩ := hb.lt_of_defined h'
  rw [← world_mover hs] at hid hscope
  refine ⟨?_, ?_⟩
  · rintro rfl
    obtain ⟨-, -, -, -, -, heq, -⟩ := h
    omega
  · rintro rfl
    exact absurd h.scope_eq (Nat.ne_of_lt hscope)

lemma eq_iff (h : b.Defined moves id ns) (h' : b.Defined moves id' ns') : id = id' ↔ ns = ns' := by
  induction moves using reverseRecOn with
  | nil =>
    obtain ⟨s, hs, -⟩ := h
    contradiction
  | append_singleton moves move ih =>
    rcases defined_concat.1 h with h | ⟨s, hs, hnew⟩ <;> rcases defined_concat.1 h' with h' | ⟨s', hs', hnew'⟩
    · exact ih h h'
    · obtain ⟨hid, hns⟩ := hb.ne_of_defines hs' hnew' h
      exact iff_of_false hid.symm hns.symm
    · obtain ⟨hid, hns⟩ := hb.ne_of_defines hs hnew h'
      exact iff_of_false hid hns
    · obtain rfl := Option.some.inj (hs.symm.trans hs')
      obtain ⟨hid, hns⟩ := hnew.eq hnew'
      exact iff_of_true hid hns

theorem flag_iff : (b.after moves).world.namespaces[id]? = some true ↔ b.Accessed moves id := by
  induction moves using reverseRecOn with
  | nil =>
    refine iff_of_false ?_ ?_
    · obtain ⟨settings, argv, files, input, rfl⟩ := hb
      exact fun h => absurd h (by simp [after, boot, Session.start])
    · rintro ⟨s, hs, -⟩
      contradiction
  | append_singleton moves move ih =>
    rw [after_concat, accessed_concat]
    cases hs : (b.after moves).mover? move with
    | none =>
      rw [namespaces_of_no_mover hs, ih]
      simp
    | some s =>
      rw [← world_mover hs] at ih
      rw [world_of_mover hs]
      refine ⟨fun h => ?_, fun h => ?_⟩
      · rcases State.opens_of_flag_step h with h | ⟨a, hopens, hid⟩
        · exact .inl (ih.1 h)
        · exact .inr ⟨s, rfl, a, hopens.1, hid⟩
      · rcases h with h | ⟨s', hs', a, h, rfl⟩
        · exact State.flag_step (ih.2 h)
        · cases hs'
          refine h.flag_step ?_
          rw [world_mover hs]
          exact (hb.lt_of_defined (hb.defined_of_accesses hs h)).1

lemma opens_iff (hs : (b.after moves).mover? move = some s) (h : s.Accesses a) :
    s.Opens a ↔ ¬ b.Accessed moves a.id := by
  rw [← hb.flag_iff, ← world_mover hs]
  have hid : a.id < s.world.namespaces.size := by
    rw [world_mover hs]
    exact (hb.lt_of_defined (hb.defined_of_accesses hs h)).1
  refine ⟨fun hopens hset => (nomatch hopens.2.symm.trans hset), fun hset => ⟨h, ?_⟩⟩
  rw [Array.getElem?_eq_getElem hid] at hset ⊢
  simpa using hset

lemma works_move (moves : List Move) (move : Move) :
    Works (fun a => ∃ s, (b.after moves).mover? move = some s ∧ s.Opens a) (b.after moves).bodies
      ((b.after moves).move move).bodies := by
  cases hs : (b.after moves).mover? move with
  | none =>
    rcases move_of_no_mover hs with heq | ⟨source, program, rfl⟩
    · rw [heq]
      exact .leave le_rfl
    · obtain ⟨t, htasks, hstart⟩ := (b.after moves).tasks_launch source program
      have ht : t.bodies = 0 := by
        rcases hstart with ⟨hstack, -⟩ | ⟨statement, rest, ctx, hstack, -⟩ <;> rw [Task.bodies, hstack] <;> rfl
      refine .leave ?_
      rw [bodies, htasks, map_cons, sum_cons, ht, zero_add, bodies, tasks, map_cons, sum_cons]
      exact Multiset.le_add_left _ _
  | some s =>
    obtain ⟨before, t, after, left, htasks, hcontrol, hstack, hmoved, hleft⟩ := tasks_of_mover hs
    have hholds := hb.holds_any moves
    have ht : (origins (fun _ _ => True) 0).task [] s.task := by
      have ht := hholds.2 t (by simp [htasks])
      rw [Rules.task, hstack, hcontrol]
      exact ht
    have hborn : (s.step.world.born.map Task.bodies).sum = 0 := by
      have hw : (origins (fun _ _ => True) 0).shared s.world := world_mover hs ▸ hholds.1
      have hstep := origins_lawful.step (fun _ _ _ => trivial) hw ht
      exact sum_eq_zero (forall_mem_map.2 fun t' ht' => Task.bodies_of_starting (hstep.1.1.born t' ht'))
    have hleft : (left.map Task.bodies).sum = s.step.task.bodies := by
      rcases hleft with rfl | ⟨rfl, hover⟩
      · exact sum_singleton
      · unfold Task.isOver at hover
        split at hover
        · rename_i hempty
          rw [Task.bodies, hempty]
          rfl
        · contradiction
    have hbefore : (b.after moves).bodies =
        s.task.bodies + ((before.map Task.bodies).sum + (after.map Task.bodies).sum) := by
      have hbodies : s.task.bodies = t.bodies := by rw [Task.bodies, hstack, Task.bodies]
      rw [bodies, htasks, map_append, sum_append, map_cons, sum_cons, ← hbodies]
      abel
    have hafter : ((b.after moves).move move).bodies =
        s.step.task.bodies + ((before.map Task.bodies).sum + (after.map Task.bodies).sum) := by
      rw [bodies, hmoved]
      simp only [map_append, sum_append, hleft, hborn]
      abel
    rw [hbefore, hafter]
    exact (State.works_step.imp fun a hopens => ⟨s, rfl, hopens⟩).add _

lemma begun_of_opens (hs : (b.after moves).mover? move = some s) (h : s.Opens a) :
    b.Begun (moves ++ [move]) (a.ns, a.ns.body) := by
  refine ⟨a.id, defined_concat.2 (.inl (hb.defined_of_accesses hs h.1)), accessed_concat.2 (.inr ?_), suffix_rfl⟩
  exact ⟨s, hs, a, h.1, rfl⟩

lemma not_begun_of_opens {nodes : List Node} (hs : (b.after moves).mover? move = some s) (h : s.Opens a) :
    ¬ b.Begun moves (a.ns, nodes) := by
  rintro ⟨id, hdefined, haccessed, -⟩
  obtain rfl := (hb.eq_iff (hb.defined_of_accesses hs h.1) hdefined).2 rfl
  exact (hb.opens_iff hs h.1).1 h haccessed

theorem begun_after (moves : List Move) : ∀ x ∈ (b.after moves).bodies, b.Begun moves x := by
  induction moves using reverseRecOn with
  | nil =>
    obtain ⟨settings, argv, files, input, rfl⟩ := hb
    exact fun x hx => absurd hx (Multiset.notMem_zero x)
  | append_singleton moves move ih =>
    have hworks := hb.works_move moves move
    rw [after_concat]
    generalize ((b.after moves).move move).bodies = bodies' at hworks
    cases hworks with
    | leave hle => exact fun x hx => (ih x (Multiset.mem_of_le hle hx)).concat
    | start hopens =>
      obtain ⟨s, hs, hopens⟩ := hopens
      refine fun x hx => ?_
      rcases Multiset.mem_cons.1 hx with rfl | hx
      · exact hb.begun_of_opens hs hopens
      · exact (ih x hx).concat
    | @next ns n nodes others heq =>
      refine fun x hx => ?_
      rcases Multiset.mem_cons.1 hx with rfl | hx
      · obtain ⟨id, hdefined, haccessed, hsuffix⟩ := (ih (ns, n :: nodes) (by simp [heq])).concat
        exact ⟨id, hdefined, haccessed, (suffix_cons n nodes).trans hsuffix⟩
      · exact (ih x (by simp [heq, hx])).concat

theorem nodup_bodies (moves : List Move) : ((b.after moves).bodies.map Prod.fst).Nodup := by
  induction moves using reverseRecOn with
  | nil =>
    obtain ⟨settings, argv, files, input, rfl⟩ := hb
    exact Multiset.nodup_zero
  | append_singleton moves move ih =>
    have hworks := hb.works_move moves move
    rw [after_concat]
    generalize ((b.after moves).move move).bodies = bodies' at hworks
    cases hworks with
    | leave hle => exact Multiset.nodup_of_le (Multiset.map_le_map hle) ih
    | start hopens =>
      obtain ⟨s, hs, hopens⟩ := hopens
      rw [Multiset.map_cons]
      refine Multiset.nodup_cons.2 ⟨fun hmem => ?_, ih⟩
      obtain ⟨⟨ns, nodes⟩, hx, rfl⟩ := Multiset.mem_map.1 hmem
      exact hb.not_begun_of_opens hs hopens (hb.begun_after moves _ hx)
    | next heq =>
      rw [heq] at ih
      rwa [Multiset.map_cons] at ih ⊢

end IsFresh

structure RunsBodiesOnce (b : Machine) : Prop where
  define {s : State} {name : String} {body : List Node} {span : Span} {ctx : Context} :
    s.task.control = .eval (.namespace_ name body span) ctx →
      s.step.task = (s.value (.namespace_ s.world.namespaces.size (s.newNamespace name body span ctx))).task ∧
        s.step.world.namespaces = s.world.namespaces.push false
  numbers {moves : List Move} {id id' : Nat} {ns ns' : Namespace} : b.Defined moves id ns → b.Defined moves id' ns' →
    (id = id' ↔ ns = ns')
  origin {moves : List Move} {move : Move} {s : State} {a : State.Access} : (b.after moves).mover? move = some s →
    s.Accesses a → b.Defined moves a.id a.ns
  first {moves : List Move} {move : Move} {s : State} {a : State.Access} : (b.after moves).mover? move = some s →
    s.Accesses a → ¬ b.Accessed moves a.id → s.StartsBody a
  again {moves : List Move} {move : Move} {s : State} {a : State.Access} : (b.after moves).mover? move = some s →
    s.Accesses a → b.Accessed moves a.id → s.step = s.answer a
  flag {moves : List Move} {id : Nat} : (b.after moves).world.namespaces[id]? = some true ↔ b.Accessed moves id
  read {s : State} {a : State.Access} : s.world.namespaces[a.id]? = some true → s.Accesses a →
    s.step = s.answer a ∧ s.step.world = s.world
  works (moves : List Move) (move : Move) :
    Works (fun a => ∃ s, (b.after moves).mover? move = some s ∧ s.Opens a)
    (b.after moves).bodies ((b.after moves).move move).bodies
  accessed {moves : List Move} {id : Nat} {ns : Namespace} {nodes : List Node} : b.Defined moves id ns →
    (ns, nodes) ∈ (b.after moves).bodies → b.Accessed moves id ∧ nodes <:+ ns.body
  alone (moves : List Move) : ((b.after moves).bodies.map Prod.fst).Nodup

end Machine

/-- In every run, a namespace is defined without its body, its first member access starts the body, and none after that
does; they change nothing. -/
theorem namespace_bodies_run_once (settings : Settings) (argv : List String) (files : FileTree) (input : List UInt8) :
    (Machine.boot settings argv files input).RunsBodiesOnce := by
  have hb : (Machine.boot settings argv files input).IsFresh := ⟨settings, argv, files, input, rfl⟩
  constructor
  case define =>
    intro s name body span ctx hcontrol
    have hdefines : s.Defines s.world.namespaces.size (s.newNamespace name body span ctx) :=
      ⟨name, body, span, ctx, hcontrol, rfl, rfl⟩
    exact ⟨hdefines.step_task, hdefines.step_namespaces⟩
  case numbers => exact hb.eq_iff
  case origin => exact hb.defined_of_accesses
  case first =>
    intro moves move s a hs haccess hnot
    exact haccess.startsBody ((hb.opens_iff hs haccess).2 hnot).2
  case again =>
    intro moves move s a hs haccess hagain
    rw [← hb.flag_iff, ← Machine.world_mover hs] at hagain
    exact haccess.step_of_flag hagain
  case flag => exact hb.flag_iff
  case read =>
    intro s a hflag haccess
    have hstep := haccess.step_of_flag hflag
    exact ⟨hstep, by rw [hstep]; rfl⟩
  case works => exact hb.works_move
  case accessed =>
    intro moves id ns nodes hdefined hmem
    obtain ⟨id', hdefined', haccessed, hsuffix⟩ := hb.begun_after moves _ hmem
    obtain rfl := (hb.eq_iff hdefined hdefined').2 rfl
    exact ⟨haccessed, hsuffix⟩
  case alone => exact hb.nodup_bodies

def failingNamespace : Module :=
  .ofTexts ["namespace n
a = 1
b = n.a
n.c
done", "defun f() -> n.b", "catch(f)", "m = n", "m.a"]

def failingNamespaceMoves (steps : Nat) : List Move :=
  .launch ⟨"", ""⟩ failingNamespace :: replicate steps (.step 0 0)

def emptyMachine : Machine := .boot ⟨⟨""⟩, 10⟩ [] ⟨[], [], []⟩ []

def failingNamespaceState (steps : Nat) : State :=
  ⟨(emptyMachine.after (failingNamespaceMoves steps)).world,
    { (emptyMachine.after (failingNamespaceMoves steps)).main with clock := 0 }⟩

/-- The function starts the body. Two accesses from inside it, the second one in vain, do not, nor does one after it has
failed. -/
theorem failing_namespace_started_once :
    (∃ a, (failingNamespaceState 13).Accesses a ∧ a.id = 0 ∧ ¬ emptyMachine.Accessed (failingNamespaceMoves 13) a.id ∧
      (failingNamespaceState 13).StartsBody a) ∧
    ∀ steps ∈ [21, 26, 38], ∃ a, (failingNamespaceState steps).Accesses a ∧ a.id = 0 ∧
      emptyMachine.Accessed (failingNamespaceMoves steps) a.id ∧
        (failingNamespaceState steps).step = (failingNamespaceState steps).answer a := by
  have hrun : ((failingNamespaceState 13).accessed?.map State.Access.id = some 0 ∧
        ¬ emptyMachine.Accessed (failingNamespaceMoves 13) 0) ∧
      ∀ steps ∈ [21, 26, 38], (failingNamespaceState steps).accessed?.map State.Access.id = some 0 ∧
        emptyMachine.Accessed (failingNamespaceMoves steps) 0 := by
    decide +kernel
  have hmover (steps : Nat) : (emptyMachine.after (failingNamespaceMoves steps)).mover? (.step 0 0) =
      some (failingNamespaceState steps) := rfl
  refine ⟨?_, fun steps hsteps => ?_⟩
  · obtain ⟨a, haccess, hid⟩ := State.accesses_of_id hrun.1.1
    have hnot : ¬ emptyMachine.Accessed (failingNamespaceMoves 13) a.id := hid ▸ hrun.1.2
    exact ⟨a, haccess, hid, hnot, (namespace_bodies_run_once _ _ _ _).first (hmover 13) haccess hnot⟩
  · obtain ⟨hid, hagain⟩ := hrun.2 steps hsteps
    obtain ⟨a, haccess, hid⟩ := State.accesses_of_id hid
    rw [← hid] at hagain
    exact ⟨a, haccess, hid, hagain, (namespace_bodies_run_once _ _ _ _).again (hmover steps) haccess hagain⟩

end ScriptMachine
