import ScriptMachine.Proofs.Actions

/-! What a step is: a node, a call, a wait or a frame on top of the stack comes down to actions, to driving a coroutine,
to a turn of a namespace, to a look at an outcome or to the end of a job. -/

namespace ScriptMachine

def Frame.isTurn : Frame → Bool
  | .member _ _ _ | .namespaceBody _ _ _ _ _ _ | .await _ _ | .gathered _ _ _ _ | .settle _ _ | .jobEnd _ _ => true
  | _ => false

namespace State

open Leeway

namespace Prepares

variable {collected positional : List Value} {f : Frame} {c : Completion} {nodes : List Node} {names : List String}
  {loop : EachLoop} {multiline : Bool} {callee key result : Value} {keywords : Dict Value} {L : Leeway} {s₀ s : State}
  {ctx : Context} {span : Span} {name : String} {v : Value} (h : s₀.Prepares L s)
include h

lemma receive {id : Nat} {until_ : Option Nat} : s₀.Does L (s.receive id until_) := by
  unfold State.receive
  split
  · exact h.setChannels.value
  · split
    · exact h.value
    · exact .wait h

lemma receiveCo {id : Nat} : s₀.Does L (s.receiveCo id span ctx) := by
  unfold State.receiveCo
  split
  · exact h.setCoChannels.value
  · exact .wait h

lemma heeding {ready : State → State} (hr : s₀.Does L (ready s)) : s₀.Does L (s.heeding span ctx ready) := by
  unfold State.heeding
  split
  · exact h.fail
  · exact hr

lemma blockNext (hn : L.allows (freeInNodes · nodes)) : s₀.Does L (s.blockNext ctx v nodes) := by
  cases nodes with
  | nil => exact h.value
  | cons n nodes =>
    unfold State.blockNext
    dsimp only
    split
    · exact h.fail
    · exact h.part (f := .statement nodes ctx) rfl (allows_or.1 hn).2 (allows_or.1 hn).1

lemma listNext {done : List Value} (hn : L.allows (freeInNodes · nodes)) : s₀.Does L (s.listNext ctx done nodes) := by
  cases nodes with
  | nil => exact h.value
  | cons n nodes => exact h.part (f := .listItem done nodes ctx) rfl (allows_or.1 hn).2 (allows_or.1 hn).1

lemma mapNext {entries : Dict Value} {nodes : List (Node × Node)} (hn : L.allows (freeInPairs · nodes)) :
    s₀.Does L (s.mapNext ctx entries nodes) := by
  cases nodes with
  | nil => exact h.value
  | cons n nodes =>
    obtain ⟨key, value⟩ := n
    obtain ⟨hpair, hrest⟩ := allows_or.1 hn
    obtain ⟨hkey, hvalue⟩ := allows_or.1 hpair
    exact h.part (f := .mapKey entries key value nodes ctx) rfl (allows_or.2 ⟨hvalue, hrest⟩) hkey

lemma branchNext {otherwise : Option Node} {cases_ : List (Node × Node)}
    (hn : L.allows fun σ => freeInPairs σ cases_ || freeInOption σ otherwise) :
    s₀.Does L (s.branchNext otherwise multiline ctx cases_) := by
  obtain ⟨hcases, hotherwise⟩ := allows_or.1 hn
  cases cases_ with
  | nil =>
    cases otherwise with
    | none => exact h.value
    | some body => exact h.part (f := .branchBody multiline) rfl allows_none hotherwise
  | cons c cases_ =>
    obtain ⟨condition, body⟩ := c
    obtain ⟨hpair, hrest⟩ := allows_or.1 hcases
    obtain ⟨hcondition, hbody⟩ := allows_or.1 hpair
    exact h.part (f := .condition body cases_ otherwise multiline ctx) rfl
      (allows_or.2 ⟨allows_or.2 ⟨hbody, hrest⟩, hotherwise⟩) hcondition

lemma argumentsNext {args : List Arg} (hn : L.allows (freeInArgs · args)) :
    s₀.Does L (s.argumentsNext callee positional keywords span ctx args) := by
  cases args with
  | nil => exact .call h
  | cons arg args =>
    simp only [freeInArgs_cons] at hn
    exact h.part (f := .argument callee positional keywords arg args span ctx) rfl (allows_or.1 hn).2 (allows_or.1 hn).1

lemma loopValue : s₀.Does L (s.loopValue multiline collected) := h.value

lemma assignAll {bindings : List (String × Value)} : s₀.Prepares L (s.assignAll ctx bindings) := by
  induction bindings generalizing s with
  | nil => exact h
  | cons b bindings ih => exact ih h.assign

lemma unpack : Gives (s₀.Prepares L) (s.unpack ctx names v) :=
  .bind fun _ _ => .ok h.assignAll

lemma round {body : Node} (ho : f.isOrdinary = true) (ht : ∀ σ, f.takes σ = decide (σ ≠ .return_))
    (hr : L.allows (f.hasFree ·)) (hb : L.allows fun σ => σ = .return_ && body.hasFree σ) :
    s₀.Does L ((s.push f).eval body ctx) := by
  refine .eval h ho hr fun σ hσ => hb σ ?_
  simpa [ht, and_comm] using hσ

lemma rangeRound {loop : RangeLoop} (hb : L.allows fun σ => σ = .return_ && loop.body.hasFree σ) :
    s₀.Does L (s.rangeRound loop v collected) := by
  unfold State.rangeRound
  split
  · exact h.fail
  · exact h.loopValue
  · have hassigned : s₀.Prepares L (s.assign loop.ctx loop.var v) := h.assign
    dsimp only
    split
    · exact hassigned.fail
    · exact hassigned.round (f := .rangeBody loop v collected) rfl (fun _ => rfl) hb hb

lemma rangeFirst {head : RangeHead} {start stop step : Value}
    (hb : L.allows fun σ => σ = .return_ && head.body.hasFree σ) : s₀.Does L (s.rangeFirst head start stop step) := by
  unfold State.rangeFirst
  split
  · exact h.fail
  · split
    · exact h.fail
    · split
      · exact h.fail
      · exact h.rangeRound hb

lemma rangeNext {loop : RangeLoop} (hb : L.allows fun σ => σ = .return_ && loop.body.hasFree σ) :
    s₀.Does L (s.rangeNext loop v collected) := by
  unfold State.rangeNext
  split
  · exact h.fail
  · exact h.setHeap.rangeRound hb

lemma bindItem {item : Value} : Gives (s₀.Prepares L) (match loop.vars with
    | [name] => .ok (s.assign loop.ctx name item)
    | names => s.unpack loop.ctx names item) := by
  split
  · exact .ok h.assign
  · exact h.unpack

lemma eachRound {items : List Value} (hb : L.allows fun σ => σ = .return_ && loop.body.hasFree σ) :
    s₀.Does L (s.eachRound loop collected items) := by
  cases items with
  | nil => exact h.loopValue
  | cons item rest =>
    unfold State.eachRound
    dsimp only
    split
    · exact h.fail
    · rename_i bound heq
      have hassigned := h.bindItem bound heq
      split
      · exact hassigned.fail
      · exact hassigned.round (f := .eachBody loop rest collected) rfl (fun _ => rfl) hb hb

lemma eachFirst (hb : L.allows fun σ => σ = .return_ && loop.body.hasFree σ) : s₀.Does L (s.eachFirst loop v) := by
  unfold State.eachFirst
  split
  · exact h.eachRound hb
  · exact h.fail

lemma whileRound {loop : WhileLoop}
    (hl : L.allows fun σ => loop.condition.hasFree σ || (σ = .return_ && loop.body.hasFree σ)) :
    s₀.Does L (s.whileRound loop collected) :=
  h.part (f := .whileCondition loop collected) rfl hl (allows_or.1 hl).1

lemma removeNames : s₀.Does L (s.removeNames span ctx names) := by
  induction names generalizing s with
  | nil => exact h.value
  | cons name names ih =>
    have hremoved : s₀.Prepares L (s.onTables (ctx.remove · name)).2 := h.onTables
    simp only [State.removeNames, State.onTables_eq]
    split
    · exact ih hremoved
    · exact hremoved.fail

lemma declareNames {parent : Bool} : s₀.Does L (s.declareNames parent span ctx names) := by
  induction names generalizing s with
  | nil => exact h.value
  | cons name names ih =>
    unfold State.declareNames
    split
    · exact ih h.setTables
    · exact h.fail

lemma store {target : Node} {w : Value} (hn : L.allows (target.hasFree ·)) :
    s₀.Does L (s.store target key w result span ctx) := by
  unfold State.store
  split
  · split
    · exact h.fail
    · split
      · exact h.fail
      · dsimp only
        split
        · exact h.setHeap.value
        · exact h.setHeap.assign.value
  · rename_i left right place
    obtain ⟨hleft, hright⟩ := allows_or.1 hn
    exact h.part (f := .storeOuterKey left (.binary .index left right place) key w result span ctx) rfl
      (allows_or.2 ⟨hleft, hn⟩) hright
  · exact h.part (f := .storeContainer none key w result span ctx) rfl allows_none hn

lemma decorateNext {name : Option String} {decorators : List Node} (hn : L.allows (freeInNodes · decorators)) :
    s₀.Does L (s.decorateNext v name ctx decorators) := by
  cases decorators with
  | nil =>
    cases name with
    | none => exact h.value
    | some name => exact h.assign.value
  | cons d decorators =>
    exact h.part (f := .decorator v d.span decorators name ctx) rfl (allows_or.1 hn).2 (allows_or.1 hn).1

lemma newFunction (c : Closure) : s₀.Prepares L (s.newFunction c).2 := h.share ⟨rfl, rfl, rfl, rfl, rfl, rfl, rfl⟩

lemma readMember {ns : Namespace} : s₀.Does L (s.readMember ns name span ctx) := by
  unfold State.readMember
  split
  · exact h.value
  · exact h.fail

lemma runStatements : s₀.Does L (s.runStatements ctx v nodes) := by
  cases nodes with
  | nil => exact h.value
  | cons n nodes => exact .enter (f := .moduleStatement n nodes ctx) h rfl rfl

lemma load {path : String} {kind : LoadKind} : s₀.Does L (s.load path kind span ctx) := by
  unfold State.load
  split
  · exact h.fail
  · rename_i source m _
    split
    · exact h.fail
    · rename_i hdepth
      have hopened : s₀.Prepares L (s.moduleContext "<module>" source (some ctx) span false).2 := h.onTables
      exact (hopened.enterModule (Nat.lt_of_not_le hdepth)).runStatements

lemma evalNode {n : Node} (hn : L.allows (n.hasFree ·)) (hd : ∀ name body span, n ≠ .namespace_ name body span) :
    s₀.Does L (s.evalNode n ctx) := by
  cases n with
  | int | float | str => exact h.value
  | list => exact h.listNext hn
  | map => exact h.mapNext hn
  | block => exact h.blockNext hn
  | ident name span =>
    unfold State.evalNode
    dsimp only
    split
    · exact h.value
    · exact h.fail
  | assign name => exact h.part (f := .assign name ctx) rfl allows_none hn
  | multiAssign names _ span => exact h.part (f := .unpack names span ctx) rfl allows_none hn
  | alias_ name newName span =>
    unfold State.evalNode
    dsimp only
    split
    · exact h.assign.value
    · exact h.fail
  | indexAssign target _ value span =>
    obtain ⟨hkey, hvalue⟩ := allows_or.1 hn
    obtain ⟨htarget, hindex⟩ := allows_or.1 hkey
    exact h.part (f := .storeKey target value span ctx) rfl (allows_or.2 ⟨htarget, hvalue⟩) hindex
  | del => exact h.removeNames
  | binary op left right span =>
    obtain ⟨hleft, hright⟩ := allows_or.1 hn
    cases op with
    | and_ => exact h.part (f := .logicLeft true right span ctx) rfl hright hleft
    | or_ => exact h.part (f := .logicLeft false right span ctx) rfl hright hleft
    | _ => exact h.part (f := .binaryLeft _ right span ctx) rfl hright hleft
  | unary op _ span => exact h.part (f := .unary op span ctx) rfl allows_none hn
  | branch => exact h.branchNext hn
  | forRange var start stop step body multiline span =>
    obtain ⟨hhead, hbody⟩ := allows_or.1 hn
    obtain ⟨hbounds, hstep⟩ := allows_or.1 hhead
    obtain ⟨hstart, hstop⟩ := allows_or.1 hbounds
    exact h.part (f := .rangeStart ⟨var, stop, step, body, multiline, span, ctx⟩) rfl
      (allows_or.2 ⟨allows_or.2 ⟨hstop, hstep⟩, hbody⟩) hstart
  | forIn vars _ body multiline span =>
    exact h.part (f := .eachSource ⟨vars, body, multiline, span, ctx⟩) rfl (allows_or.1 hn).2 (allows_or.1 hn).1
  | while_ => exact h.whileRound hn
  | function name params body autoReturn isAsync decorators =>
    have hdecorators : L.allows (freeInNodes · decorators) := hn
    have hreversed : L.allows (freeInNodes · decorators.reverse) := by
      simpa only [freeInNodes_eq_any, List.any_reverse] using hdecorators
    exact (h.newFunction ⟨name.getD "<anonymous>", ⟨params, body, autoReturn, isAsync⟩, ctx⟩).decorateNext hreversed
  | call _ args span => exact h.part (f := .callee args span ctx) rfl (allows_or.1 hn).2 (allows_or.1 hn).1
  | member _ name span => exact h.part (f := .member name span ctx) rfl allows_none hn
  | await _ span => exact h.part (f := .await span ctx) rfl allows_none hn
  | return_ value =>
    obtain ⟨hreturn, hvalue⟩ := allows_or.1 hn
    cases value with
    | none => exact .finish h (hreturn .return_ rfl)
    | some value => exact h.part (f := .returned) rfl hreturn hvalue
  | continue_ => exact .finish h (hn .continue_ rfl)
  | break_ => exact .finish h (hn .break_ rfl)
  | load => exact h.load
  | namespace_ name body span => exact absurd rfl (hd name body span)
  | using_ => exact h.declareNames

lemma addArgument {current : Arg} {rest : List Arg} (hn : L.allows (freeInArgs · rest)) :
    s₀.Does L (s.addArgument callee positional keywords current rest span ctx v) := by
  unfold State.addArgument
  split
  · exact h.argumentsNext hn
  · exact h.argumentsNext hn
  · split
    · exact h.argumentsNext hn
    · exact h.fail
  · split
    · exact h.argumentsNext hn
    · exact h.fail

lemma applyBinary {op : BinaryOp} {left : Value} : s₀.Does L (s.applyBinary op left v span ctx) := by
  rw [State.applyBinary_eq]
  split
  · exact h.setHeap.value
  · exact h.fail

lemma storeIn {outer : Option (Node × Value)} {w : Value} (hn : L.allows (freeInOption · (outer.map Prod.fst))) :
    s₀.Does L (s.storeIn v outer key w result span ctx) := by
  unfold State.storeIn
  split
  · exact h.fail
  · dsimp only
    split
    · exact h.setHeap.store hn
    · exact h.setHeap.value

lemma cleanup {final : Value} (hc : L.completion c) :
    s₀.Does L (((s.push (.cleanedUp c)).push (.settle span ctx)).call final [] [] span ctx) :=
  .call ((h.keep hc).push (f := .settle span ctx) rfl allows_none)

lemma pass (hp : L.allows fun σ => f.passes σ (c.signal? = some σ))
    (ht : ∀ σ, c.signal? = some σ → f.takes σ = false) :
    s₀.Does L (s.pass c) := by
  have hsignal (σ : Signal) (hσ : c.signal? = some σ) : L.signal σ := by
    refine hp σ ?_
    simp only [Frame.passes, hσ, ht σ hσ, decide_true, Bool.not_false, Bool.and_true, Bool.or_true]
  refine .finish h ?_
  cases c with
  | value | error => trivial
  | return_ => exact hsignal .return_ rfl
  | break_ => exact hsignal .break_ rfl
  | continue_ => exact hsignal .continue_ rfl

lemma asResult : s₀.Does L (s.asResult c span ctx) := by
  cases c with
  | value | return_ => exact h.value
  | error | break_ | continue_ => exact .finish h trivial

lemma resumeValue (ht : f.isTurn = false) (hf : L.allows (f.hasFree ·)) (hk : ∀ c, f = .cleanedUp c → L.completion c) :
    s₀.Does L (s.resumeValue f v) := by
  cases f with
  | listItem => exact h.listNext hf
  | mapKey entries key value rest ctx =>
    unfold State.resumeValue
    dsimp only
    split
    · exact h.part (f := .mapValue entries _ rest ctx) rfl (allows_or.1 hf).2 (allows_or.1 hf).1
    · exact h.fail
  | mapValue => exact h.mapNext hf
  | statement => exact h.blockNext hf
  | assign => exact h.assign.value
  | unpack names span ctx =>
    unfold State.resumeValue
    dsimp only
    split
    · rename_i unpacked hunpacked
      exact (h.unpack unpacked hunpacked).value
    · exact h.fail
  | storeKey target value span ctx =>
    exact h.part (f := .storeValue target v span ctx) rfl (allows_or.1 hf).1 (allows_or.1 hf).2
  | storeValue => exact h.store hf
  | storeOuterKey left target key value result span ctx =>
    exact h.part (f := .storeContainer (some (left, v)) key value result span ctx) rfl (allows_or.1 hf).1
      (allows_or.1 hf).2
  | storeContainer => exact h.storeIn hf
  | logicLeft conjunction right span ctx =>
    unfold State.resumeValue
    dsimp only
    split
    · exact h.fail
    · split
      · exact h.part (f := .logicRight span ctx) rfl allows_none hf
      · exact h.value
  | logicRight =>
    unfold State.resumeValue
    dsimp only
    split
    · exact h.fail
    · exact h.value
  | binaryLeft op right span ctx => exact h.part (f := .binaryRight op v span ctx) rfl allows_none hf
  | binaryRight => exact h.applyBinary
  | unary =>
    unfold State.resumeValue
    dsimp only
    split
    · exact h.value
    · exact h.fail
  | condition body rest otherwise multiline ctx =>
    obtain ⟨hcases, hotherwise⟩ := allows_or.1 hf
    obtain ⟨hbody, hrest⟩ := allows_or.1 hcases
    unfold State.resumeValue
    dsimp only
    split
    · exact h.part (f := .branchBody multiline) rfl allows_none hbody
    · exact h.branchNext (allows_or.2 ⟨hrest, hotherwise⟩)
  | rangeStart head =>
    obtain ⟨hbounds, hbody⟩ := allows_or.1 hf
    obtain ⟨hstop, hstep⟩ := allows_or.1 hbounds
    exact h.part (f := .rangeStop head v) rfl (allows_or.2 ⟨hstep, hbody⟩) hstop
  | rangeStop head start =>
    obtain ⟨hstep, hbody⟩ := allows_or.1 hf
    unfold State.resumeValue
    dsimp only
    split
    · rename_i step heq
      rw [heq] at hstep
      exact h.part (f := .rangeStep head start v) rfl hbody hstep
    · exact h.rangeFirst hbody
  | rangeStep => exact h.rangeFirst hf
  | rangeBody => exact h.rangeNext hf
  | eachSource => exact h.eachFirst hf
  | eachBody => exact h.eachRound hf
  | whileCondition loop collected =>
    unfold State.resumeValue
    dsimp only
    split
    · split
      · exact h.fail
      · exact h.round (f := .whileBody loop collected) rfl (fun _ => rfl) hf (allows_or.1 hf).2
    · exact h.loopValue
  | whileBody => exact h.whileRound hf
  | decorator function span rest name ctx => exact .call (h.push (f := .decorated rest name ctx) rfl hf)
  | decorated => exact h.decorateNext hf
  | callee => exact h.argumentsNext hf
  | argument => exact h.addArgument hf
  | returned => exact .finish h (hf .return_ rfl)
  | moduleStatement => exact h.runStatements
  | default => exact h.assign.bindParams
  | cleanup => exact h.cleanup trivial
  | cleanedUp c => exact .finish h (hk c rfl)
  | member | namespaceBody | await | gathered | settle | jobEnd => contradiction
  | _ => exact h.value

lemma resumeOther (hv : ∀ v, c ≠ .value v) (hj : ∀ future pool, f ≠ .jobEnd future pool)
    (hp : L.allows fun σ => f.passes σ (c.signal? = some σ)) : s₀.Does L (s.resumeOther f c) := by
  have hf : L.allows (f.hasFree ·) := fun σ hσ => hp σ (by simp only [Frame.passes, hσ, Bool.true_or])
  cases f with
  | rangeBody loop current collected =>
    cases c with
    | value v => exact absurd rfl (hv v)
    | error | return_ => exact h.pass hp (by simp [Completion.signal?, Frame.takes])
    | break_ => exact h.loopValue
    | continue_ => exact h.rangeNext hf
  | eachBody loop rest collected =>
    cases c with
    | value v => exact absurd rfl (hv v)
    | error | return_ => exact h.pass hp (by simp [Completion.signal?, Frame.takes])
    | break_ => exact h.loopValue
    | continue_ => exact h.eachRound hf
  | whileBody loop collected =>
    cases c with
    | value v => exact absurd rfl (hv v)
    | error | return_ => exact h.pass hp (by simp [Completion.signal?, Frame.takes])
    | break_ => exact h.loopValue
    | continue_ => exact h.whileRound hf
  | moduleStatement | functionBody => exact h.asResult
  | namespaceBody =>
    cases c with
    | return_ => exact h.readMember
    | value v => exact absurd rfl (hv v)
    | error | break_ | continue_ => exact .finish h trivial
  | default =>
    cases c with
    | return_ => exact h.assign.bindParams
    | value v => exact absurd rfl (hv v)
    | error | break_ | continue_ => exact .finish h trivial
  | caught | panicked =>
    cases c with
    | error => exact h.value
    | value | return_ | break_ | continue_ => exact h.pass hp fun _ _ => rfl
  | cleanup =>
    refine h.cleanup ?_
    cases c with
    | value | error => trivial
    | return_ => exact hp .return_ rfl
    | break_ => exact hp .break_ rfl
    | continue_ => exact hp .continue_ rfl
  | jobEnd future pool => exact absurd rfl (hj future pool)
  | _ => exact h.pass hp fun _ _ => rfl

end Prepares

def onto (s : State) (rest : List Frame) : State := { s with task := { s.task with stack := rest } }

def unwound (s : State) : State :=
  match s.task.control, s.task.stack with
  | .done c, f :: rest => (s.onto rest).unwind f c
  | _, _ => s

inductive Drives (s : State) : State → Nat → String → Span → Context → Prop
  | await {id name span ctx rest} :
      s.task.control = .done (.value (.coroutine id name)) → s.task.stack = .await span ctx :: rest →
        Drives s (s.onto rest) id name span ctx
  | settle {id name span ctx rest} :
      s.task.control = .done (.value (.coroutine id name)) → s.task.stack = .settle span ctx :: rest →
        Drives s (s.onto rest) id name span ctx
  | gather {id name span ctx args bound members kwargs} :
      s.task.control = .call (.builtin .gather) args kwargs span ctx →
        Builtin.gather.bind args kwargs = .ok bound →
          Invocation.items ⟨.gather, bound, span, ctx⟩ s.world.heap 0 = .ok (.coroutine id name :: members) →
            members.all isCoroutine = true → Drives s (s.push (.gathered [] members span ctx)) id name span ctx
  | next {id name span ctx v done members rest} : s.task.control = .done (.value v) →
        s.task.stack = .gathered done (.coroutine id name :: members) span ctx :: rest →
          Drives s ((s.onto rest).push (.gathered (v :: done) members span ctx)) id name span ctx
  | timeout {id limit name span ctx args bound kwargs} :
      s.task.control = .call (.builtin .timeout) args kwargs span ctx →
        Builtin.timeout.bind args kwargs = .ok bound →
        Invocation.coroutine ⟨.timeout, bound, span, ctx⟩ 0 = .ok (id, name) →
          Invocation.seconds ⟨.timeout, bound, span, ctx⟩ 1 = .ok limit →
            Drives s (s.withDeadline limit) id name span ctx

inductive Looks (s : State) (p : Producer) (limit : Option Nat) : Option Nat → Span → Context → Prop
  | turn {span : Span} {ctx : Context} : s.task.control = .wait (.turn p limit span ctx) →
      (∀ o, s.outcome? p ≠ some (o, true)) → Looks s p limit (s.endOf limit) span ctx
  | outcome {until_ : Option Nat} {span : Span} {ctx : Context} :
      s.task.control = .wait (.outcome p limit until_ span ctx) → Looks s p limit until_ span ctx

def told (p : Producer) (settled : Bool) : Value :=
  match p with
  | .thread _ => .bool (!settled)
  | .future _ => .bool settled

inductive Moves (L : Leeway) (s : State) : State → Prop
  | rest : s.task.isOver = true → Moves L s s
  | act {s'} : s.unwound.Does L s' → Moves L s s'
  | drive {x id name span ctx} : s.Drives x id name span ctx → Moves L s (x.drive id name span ctx)
  | define {name body span ctx} :
      s.task.control = .eval (.namespace_ name body span) ctx → Moves L s (s.defineNamespace name body span ctx)
  | access {id ns name span ctx rest} :
      s.task.control = .done (.value (.namespace_ id ns)) → s.task.stack = .member name span ctx :: rest →
        Moves L s ((s.onto rest).member (.namespace_ id ns) name span ctx)
  | proceed {ns current nodes name span ctx rest v} : s.task.control = .done (.value v) →
        s.task.stack = .namespaceBody ns current nodes name span ctx :: rest →
          Moves L s ((s.onto rest).namespaceNext ns name span ctx nodes)
  | look {p limit until_ span ctx} : s.Looks p limit until_ span ctx → Moves L s (s.look p limit until_ span ctx)
  | query {p o} : s.task.control = .wait (.query p) → s.outcome? p = some (o, false) →
      Moves L s ((s.setOutcome p o.isSettled.2 false).value (told p o.isSettled.1))
  | job {future pool c rest} : s.task.control = .done c →
      s.task.stack = .jobEnd future pool :: rest → Moves L s (s.unwound.nextJob pool)

def emits (s : State) (σ : Signal) : Bool :=
  match s.task.control, s.task.stack with
  | .eval n _, _ => n.hasFree σ
  | .done c, f :: _ => f.passes σ (c.signal? = some σ)
  | _, _ => false

variable {span : Span} {ctx : Context} {args : List Value} {kwargs : Dict Value} {L : Leeway} {s : State} {f : Frame}
  {rest : List Frame} {c : Completion}

lemma step_of_done (hc : s.task.control = .done c) (hs : s.task.stack = f :: rest) :
    s.step = (s.onto rest).resume f c := by
  simp only [step, hc, hs, onto]

lemma unwound_of_done (hc : s.task.control = .done c) (hs : s.task.stack = f :: rest) :
    s.unwound = (s.onto rest).unwind f c := by
  simp only [unwound, hc, hs]

lemma unwound_of_not_done (hc : ∀ c, s.task.control ≠ .done c) : s.unwound = s := by
  unfold unwound
  split
  · rename_i c f rest heq _
    exact absurd heq (hc c)
  · rfl

lemma unwound_of_isOver (h : s.task.isOver = true) : s.unwound = s := by
  unfold unwound
  split
  · rename_i hc hs
    simp [Task.isOver, hc, hs] at h
  · rfl

lemma step_of_isOver (h : s.task.isOver = true) : s.step = s := by
  unfold Task.isOver at h
  split at h
  · rename_i hc hs
    simp only [step, hc, hs]
  · contradiction

lemma prepares_unwound (hc : ∀ c, s.task.control ≠ .done c) : s.unwound.Prepares L s := by
  rw [unwound_of_not_done hc]
  exact .refl

lemma moves_gather (hc : s.task.control = .call (.builtin .gather) args kwargs span ctx) :
    s.Moves L (s.callBuiltin .gather args kwargs span ctx) := by
  have hself : s.unwound.Prepares L s := prepares_unwound (by simp [hc])
  unfold callBuiltin
  split
  · exact .act hself.fail
  · rename_i bound hbound
    have hperform : s.perform ⟨.gather, bound, span, ctx⟩ = s.gather ⟨.gather, bound, span, ctx⟩ := rfl
    rw [hperform, gather]
    cases hitems : Invocation.items ⟨.gather, bound, span, ctx⟩ s.world.heap 0 with
    | error f => exact .act hself.fail
    | ok members =>
      simp only [bind, Except.bind]
      by_cases hall : members.all isCoroutine = true
      · rw [if_pos hall]
        cases members with
        | nil => exact .act hself.value
        | cons c members =>
          cases c with
          | coroutine id name => exact .drive (.gather hc hbound hitems (by simpa [isCoroutine] using hall))
          | _ => simp [isCoroutine] at hall
      · rw [if_neg hall]
        exact .act hself.fail

lemma moves_timeout (hc : s.task.control = .call (.builtin .timeout) args kwargs span ctx) :
    s.Moves L (s.callBuiltin .timeout args kwargs span ctx) := by
  have hself : s.unwound.Prepares L s := prepares_unwound (by simp [hc])
  unfold callBuiltin
  split
  · exact .act hself.fail
  · rename_i bound hbound
    have hperform : s.perform ⟨.timeout, bound, span, ctx⟩ = s.timeout ⟨.timeout, bound, span, ctx⟩ := rfl
    rw [hperform, timeout]
    cases hcoroutine : Invocation.coroutine ⟨.timeout, bound, span, ctx⟩ 0 with
    | error f => exact .act hself.fail
    | ok c =>
      cases hlimit : Invocation.seconds ⟨.timeout, bound, span, ctx⟩ 1 with
      | error f => exact .act hself.fail
      | ok limit => exact .drive (.timeout hc hbound hcoroutine hlimit)

lemma moves_call {callee : Value} (hc : s.task.control = .call callee args kwargs span ctx) :
    s.Moves L (s.enterCall callee args kwargs span ctx) := by
  have hself : s.unwound.Prepares L s := prepares_unwound (by simp [hc])
  cases callee with
  | function id c => exact .act hself.callFunction
  | builtin b =>
    by_cases hg : b = .gather
    · subst hg
      exact moves_gather hc
    · by_cases ht : b = .timeout
      · subst ht
        exact moves_timeout hc
      · exact .act (hself.callBuiltin hg ht)
  | _ => exact .act hself.fail

lemma moves_retry {w : Wait} (hc : s.task.control = .wait w) : s.Moves L (s.retry w) := by
  have hself : s.unwound.Prepares L s := prepares_unwound (by simp [hc])
  unfold retry
  cases w with
  | moment time span ctx =>
    refine .act (hself.heeding ?_)
    split
    · exact hself.value
    · exact .wait hself
  | coChannel id span ctx => exact .act (hself.heeding hself.receiveCo)
  | background r span ctx => exact .act (hself.heeding hself.ofResult)
  | channel id until_ => exact .act hself.receive
  | turn p limit span ctx =>
    dsimp only
    split
    · exact .act (.wait hself)
    · rename_i hturn
      exact .look (.turn hc hturn)
  | outcome p limit until_ span ctx => exact .look (.outcome hc)
  | query p =>
    dsimp only
    split
    · exact .act (.wait hself)
    · rename_i o ho
      have hquery : s.Moves L ((s.setOutcome p o.isSettled.2 false).value (told p o.isSettled.1)) := .query hc ho
      cases p with
      | thread | future => exact hquery
    · exact .act hself.value
  | drained pool =>
    dsimp only
    split
    · exact .act hself.value
    · exact .act (.wait hself)

lemma moves_settled {x : State} {v : Value} (hx : s.unwound.Prepares L x)
    (hd : ∀ id name, v = .coroutine id name → s.Drives x id name span ctx) : s.Moves L (x.settled v span ctx) := by
  cases v with
  | coroutine id name => exact .drive (hd id name rfl)
  | _ => exact .act hx.value

lemma moves_value {v : Value} (hc : s.task.control = .done (.value v)) (hs : s.task.stack = f :: rest)
    (hL : L.allows s.emits) (hj : ∀ future pool, f ≠ .jobEnd future pool) :
    s.Moves L (((s.onto rest).unwind f (.value v)).resumeValue f v) := by
  have hself : s.unwound.Prepares L ((s.onto rest).unwind f (.value v)) := by
    rw [unwound_of_done hc hs]
    exact .refl
  have hfree : L.allows (f.hasFree ·) := by
    intro σ hσ
    refine hL σ ?_
    simp only [emits, hc, hs, Frame.passes, hσ, Bool.true_or]
  by_cases hturn : f.isTurn = true
  · cases f with
    | member name span ctx =>
      cases v with
      | namespace_ id ns => exact .access hc hs
      | _ => exact .act hself.fail
    | namespaceBody => exact .proceed hc hs
    | await span ctx =>
      cases v with
      | coroutine id name => exact .drive (.await hc hs)
      | _ => exact .act hself.fail
    | gathered done members span ctx =>
      cases members with
      | nil => exact .act hself.value
      | cons c members =>
        refine moves_settled (hself.push (f := .gathered (v :: done) members span ctx) rfl Leeway.allows_none) ?_
        rintro id name rfl
        exact .next hc hs
    | settle span ctx =>
      refine moves_settled hself ?_
      rintro id name rfl
      exact .settle hc hs
    | jobEnd future pool => exact absurd rfl (hj future pool)
    | _ => contradiction
  · refine .act (hself.resumeValue (by simpa using hturn) hfree ?_)
    rintro c rfl
    cases c with
    | value | error => trivial
    | return_ | break_ | continue_ => exact hfree _ rfl

theorem step_moves (hL : L.allows s.emits) : s.Moves L s.step := by
  cases hcontrol : s.task.control with
  | eval n ctx =>
    simp only [step, hcontrol]
    by_cases hd : ∃ name body span, n = .namespace_ name body span
    · obtain ⟨name, body, span, rfl⟩ := hd
      exact .define hcontrol
    · have hfree : L.allows (n.hasFree ·) := fun σ hσ => hL σ (by simpa only [emits, hcontrol] using hσ)
      refine .act ?_
      rw [unwound_of_not_done (by simp [hcontrol])]
      exact Prepares.refl.evalNode hfree fun name body span hn => hd ⟨name, body, span, hn⟩
  | call callee args kwargs span ctx =>
    simp only [step, hcontrol]
    exact moves_call hcontrol
  | wait w =>
    simp only [step, hcontrol]
    exact moves_retry hcontrol
  | done c =>
    cases hstack : s.task.stack with
    | nil =>
      simp only [step, hcontrol, hstack]
      exact .rest (by simp only [Task.isOver, hcontrol, hstack])
    | cons f rest =>
      rw [step_of_done hcontrol hstack]
      by_cases hj : ∃ future pool, f = .jobEnd future pool
      · obtain ⟨future, pool, rfl⟩ := hj
        have hjob : s.Moves L (s.unwound.nextJob pool) := .job hcontrol hstack
        rwa [unwound_of_done hcontrol hstack] at hjob
      · have hj : ∀ future pool, f ≠ .jobEnd future pool := fun future pool heq => hj ⟨future, pool, heq⟩
        by_cases hv : ∃ v, c = .value v
        · obtain ⟨v, rfl⟩ := hv
          have hresume : (s.onto rest).resume f (.value v) = ((s.onto rest).unwind f (.value v)).resumeValue f v := by
            cases f with
            | jobEnd future pool => exact absurd rfl (hj future pool)
            | _ => rfl
          rw [hresume]
          exact moves_value hcontrol hstack hL hj
        · have hv : ∀ v, c ≠ .value v := fun v heq => hv ⟨v, heq⟩
          have hresume : (s.onto rest).resume f c = ((s.onto rest).unwind f c).resumeOther f c := by
            unfold resume
            dsimp only
            split
            · exact absurd rfl (hj _ _)
            · exact absurd rfl (hv _)
            · rfl
          have hpasses : L.allows fun σ => f.passes σ (c.signal? = some σ) := fun σ hσ =>
            hL σ (by simpa only [emits, hcontrol, hstack] using hσ)
          rw [hresume]
          refine .act ?_
          rw [unwound_of_done hcontrol hstack]
          exact Prepares.refl.resumeOther hv hj hpasses

end State

end ScriptMachine
