import ScriptMachine.Proofs.Untraced.Builtins

/-! Steps without places: what a node, a frame or a task does next shows its places in reports only. -/

namespace ScriptMachine

open List State

namespace Erasure

variable {e : Erasure} {s s' : State} {ctx ctx' : Context} {span span' : Span} {v v' : Value} {name : String}

lemma state_assign (hs : e.state s' = e.state s) (hc : ctx'.untraced = ctx.untraced) (hv : v'.untraced = v.untraced) :
    e.state (s'.assign ctx' name v') = e.state (s.assign ctx name v) := by
  rw [← assign_state, ← assign_state, hs, hc, hv]

lemma setHeap_state {h : Heap} : (e.state s).setHeap h.untraced = e.state (s.setHeap h) := rfl

section load

variable {nodes : List Node}

lemma state_runStatements :
    e.state ((e.state s).runStatements ctx.untraced v.untraced (unplacedNodes nodes)) =
      e.state (s.runStatements ctx v nodes) := by
  cases nodes <;> exact state_of_eq rfl

lemma state_runStatements_of_eq (hs : e.state s' = e.state s) (hc : ctx'.untraced = ctx.untraced) :
    e.state (s'.runStatements ctx' v nodes) = e.state (s.runStatements ctx v nodes) := by
  rw [← state_runStatements, hs, hc, state_runStatements]

lemma moduleContext_state {name' : String} {source : Source} {parent parent' : Option Context} {isMain : Bool} :
    ((e.state s).moduleContext name' source parent' span' isMain).1.untraced =
        (s.moduleContext name source parent span isMain).1.untraced ∧
      ((e.state s).moduleContext name' source parent' span' isMain).2 =
        e.state (s.moduleContext name source parent span isMain).2 := by
  obtain ⟨hctx, htables⟩ := @Context.ofModule_untraced s.world.tables name' name parent' parent span' span source
    s.world.globals
  refine ⟨hctx, congrArg (e.state s).setTables ?_⟩
  have hprivate := congrArg Context.privateTable hctx
  have hset := @Tables.set_untraced (Context.ofModule name source s.world.globals parent span s.world.tables).2
    (Context.ofModule name source s.world.globals parent span s.world.tables).1.privateTable "is_main" (.bool isMain)
  rw [← htables] at hset
  exact (congrArg (Tables.set _ · "is_main" (.bool isMain)) hprivate).trans hset

lemma state_load {kind : LoadKind} :
    e.state ((e.state s).load name kind span' ctx.untraced) = e.state (s.load name kind span ctx) := by
  have hfind : (e.state s).findModule name kind ctx.untraced = s.findModule name kind ctx := rfl
  unfold load
  rw [hfind]
  cases s.findModule name kind ctx with
  | error f => exact fails
  | ok r =>
    obtain ⟨source, m⟩ := r
    by_cases hd : s.world.settings.maxDepth ≤ s.task.depth
    · have hd' : (e.state s).world.settings.maxDepth ≤ (e.state s).task.depth := hd
      simp only [if_pos hd, if_pos hd']
      exact fails
    · have hd' : ¬(e.state s).world.settings.maxDepth ≤ (e.state s).task.depth := hd
      simp only [if_neg hd, if_neg hd']
      obtain ⟨hinner, hstate⟩ := @moduleContext_state e s span span' "<module>" "<module>" source (some ctx)
        (some ctx.untraced) false
      refine state_runStatements_of_eq (state_of_eq ?_) hinner
      rw [hstate]
      rfl

end load

section eval

variable {nodes : List Node} {names : List String} {multiline : Bool} {collected items : List Value} {loop : EachLoop}
  {ns : Namespace}

lemma state_blockNext :
    e.state ((e.state s).blockNext ctx.untraced v.untraced (unplacedNodes nodes)) = e.state
    (s.blockNext ctx v nodes) := by
  cases nodes with
  | nil => exact state_of_eq rfl
  | cons n nodes =>
    simp only [unplacedNodes, blockNext, interruption?_state]
    cases s.interruption? with
    | some f => exact fails
    | none => exact state_of_eq rfl

lemma state_listNext (done : List Value) :
    e.state ((e.state s).listNext ctx.untraced (untracedValues done) (unplacedNodes nodes)) =
      e.state (s.listNext ctx done nodes) := by
  cases nodes with
  | nil => exact gives (by simp)
  | cons n nodes => exact state_of_eq rfl

lemma state_mapNext (entries : Dict Value) {nodes : List (Node × Node)} :
    e.state ((e.state s).mapNext ctx.untraced (untracedDict entries) (unplacedPairs nodes)) =
      e.state (s.mapNext ctx entries nodes) := by
  cases nodes with
  | nil => exact gives (by simp)
  | cons n nodes => exact state_of_eq rfl

lemma state_branchNext {otherwise : Option Node} {cases_ : List (Node × Node)} :
    e.state ((e.state s).branchNext (unplacedOption otherwise) multiline ctx.untraced (unplacedPairs cases_)) =
      e.state (s.branchNext otherwise multiline ctx cases_) := by
  cases cases_ with
  | nil => cases otherwise <;> exact state_of_eq rfl
  | cons c cases_ => exact state_of_eq rfl

lemma state_argumentsNext {callee : Value} (positional : List Value) (keywords : Dict Value) {args : List Arg} :
    e.state ((e.state s).argumentsNext callee.untraced (untracedValues positional) (untracedDict keywords) (.point 0)
      ctx.untraced (unplacedArgs args)) = e.state (s.argumentsNext callee positional keywords span ctx args) := by
  cases args with
  | nil => exact state_call (e.state_state s) (by simp) (by simp) (by simp) (e.place_untraced ctx)
  | cons arg args => cases arg <;> exact state_of_eq rfl

lemma state_loopValue :
    e.state ((e.state s).loopValue multiline (untracedValues collected)) = e.state
    (s.loopValue multiline collected) := by
  cases multiline with
  | true => exact state_of_eq rfl
  | false => exact gives (by simp)

lemma unpacked_untraced {h : Heap} :
    unpacked h.untraced names v.untraced = (unpacked h names v).map untracedValues := by
  have hcount (items : List Value) :
      (if (untracedValues items).length = names.length then Except.ok (untracedValues items)
        else .error (Fault.unpackCount names.length (untracedValues items).length)) =
      Except.map untracedValues
        (if items.length = names.length then .ok items else .error (.unpackCount names.length items.length)) := by
    rw [length_map]
    split <;> rfl
  unfold unpacked
  rw [Heap.items?_untraced]
  cases h.items? v with
  | none => rfl
  | some items =>
    simp only [Option.map_some]
    -- Only a list of one item is looked into, and only for two names or more.
    rcases items with _ | ⟨inner, _ | ⟨second, items⟩⟩
    · exact hcount []
    · rcases names with _ | ⟨first, _ | ⟨second, names⟩⟩
      · exact hcount [inner]
      · exact hcount [inner]
      · simp only [map_cons, map_nil, Heap.items?_untraced]
        cases h.items? inner with
        | none => exact hcount [inner]
        | some items => exact hcount items
    · exact hcount (inner :: second :: items)

lemma assignAll_state {bindings : List (String × Value)} :
    (e.state s).assignAll ctx.untraced (bindings.map fun b => (b.1, b.2.untraced)) =
      e.state (s.assignAll ctx bindings) := by
  induction bindings generalizing s with
  | nil => rfl
  | cons b bindings ih =>
    simp only [assignAll, map_cons, foldl_cons, assign_state] at ih ⊢
    exact ih

lemma unpack_state : (e.state s).unpack ctx.untraced names v.untraced = (s.unpack ctx names v).map e.state := by
  simp only [unpack, heap_state, unpacked_untraced]
  cases unpacked s.world.heap names v with
  | error f => rfl
  | ok items =>
    refine congrArg Except.ok ?_
    rw [zip_map_right]
    exact assignAll_state

lemma state_rangeRound (loop : RangeLoop) (collected : List Value) :
    e.state ((e.state s).rangeRound loop.untraced v.untraced (untracedValues collected)) =
      e.state (s.rangeRound loop v collected) := by
  have hascending : loop.untraced.ascending = loop.ascending := rfl
  have hstop : loop.untraced.stop = loop.stop.untraced := rfl
  unfold rangeRound
  rw [heap_state, hascending, hstop, Heap.compare_untraced]
  cases s.world.heap.compare (if loop.ascending then .lt else .gt) v loop.stop with
  | error f => exact fails
  | ok b => cases b with
    | false => exact state_loopValue
    | true =>
      simp only [RangeLoop.untraced, assign_state, interruption?_state]
      cases (s.assign loop.ctx loop.var v).interruption? with
      | some f => exact fails
      | none => exact state_of_eq rfl

lemma isNumber_untraced (v : Value) : isNumber v.untraced = isNumber v := by cases v <;> rfl

lemma state_rangeFirst {head : RangeHead} {start stop : Value} (step : Value) :
    e.state ((e.state s).rangeFirst head.untraced start.untraced stop.untraced step.untraced) =
      e.state (s.rangeFirst head start stop step) := by
  have hfind : [start.untraced, stop.untraced, step.untraced].find? (!isNumber ·) =
      ([start, stop, step].find? (!isNumber ·)).map Value.untraced := by
    have hmap := find?_map (p := (!isNumber ·)) (f := Value.untraced) (l := [start, stop, step])
    simpa only [map_cons, map_nil, Function.comp_def, isNumber_untraced] using hmap
  have hequal : s.world.heap.untraced.equal step.untraced (.int 0) = s.world.heap.equal step (.int 0) :=
    Heap.equal_untraced (b := .int 0)
  have hcompare : s.world.heap.untraced.compare .gt step.untraced (.int 0) = s.world.heap.compare .gt step (.int 0) :=
    Heap.compare_untraced (b := .int 0)
  unfold rangeFirst
  rw [hfind, heap_state, hequal, hcompare]
  cases [start, stop, step].find? (!isNumber ·) with
  | some v =>
    simp only [Option.map_some, Value.tag_untraced]
    exact fails
  | none =>
    simp only [Option.map_none]
    split
    · exact fails
    · cases s.world.heap.compare .gt step (.int 0) with
      | error f => exact fails
      | ok ascending =>
        exact state_rangeRound ⟨head.var, stop, step, ascending, head.body, head.multiline, head.span, head.ctx⟩ []

lemma state_rangeNext {loop : RangeLoop} (collected : List Value) :
    e.state ((e.state s).rangeNext loop.untraced v.untraced (untracedValues collected)) =
      e.state (s.rangeNext loop v collected) := by
  have hstep : loop.untraced.step = loop.step.untraced := rfl
  unfold rangeNext
  rw [heap_state, hstep, Heap.add_untraced]
  cases s.world.heap.add v loop.step with
  | error f => exact fails
  | ok r => exact state_rangeRound (s := s.setHeap r.2) loop collected

lemma elements?_untraced {h : Heap} :
    elements? h.untraced v.untraced = (elements? h v).map untracedValues := by
  have hitems {v : Value} : (h.untraced.items? v.untraced).or
        ((h.untraced.entries? v.untraced).map fun es => es.map fun e => .list [.str e.1, e.2]) =
      ((h.items? v).or ((h.entries? v).map fun es => es.map fun e => .list [.str e.1, e.2])).map untracedValues := by
    rw [Heap.items?_untraced, Heap.entries?_untraced, Option.map_map]
    cases h.items? v with
    | some items => rfl
    | none => cases h.entries? v with
      | some entries => simp [Dict.onValues, Value.untraced, untracedItems]
      | none => rfl
  cases v with
  | str | bytes => simp [elements?, Value.untraced]
  | list items => exact @hitems (.list items)
  | map entries => exact @hitems (.map entries)
  | sharedList cell => exact @hitems (.sharedList cell)
  | sharedMap cell => exact @hitems (.sharedMap cell)
  | _ => rfl

lemma state_eachBody (loop : EachLoop) : e.state (match (e.state s).interruption? with
      | some f => (e.state s).fail f (.point 0) loop.ctx.untraced
      | none => ((e.state s).push (e.frame (.eachBody loop items collected))).eval loop.body.unplaced
          loop.ctx.untraced) =
    e.state (match s.interruption? with
      | some f => s.fail f loop.span loop.ctx
      | none => (s.push (.eachBody loop items collected)).eval loop.body loop.ctx) := by
  rw [interruption?_state]
  cases s.interruption? with
  | some f => exact fails
  | none => exact state_of_eq rfl

lemma state_eachRound (collected : List Value) :
    e.state ((e.state s).eachRound loop.untraced (untracedValues collected) (untracedValues items)) =
      e.state (s.eachRound loop collected items) := by
  cases items with
  | nil => exact state_loopValue
  | cons item items =>
    obtain ⟨vars, body, multiline, span, ctx⟩ := loop
    simp only [map_cons, eachRound, EachLoop.untraced]
    rcases vars with _ | ⟨name, _ | ⟨second, names⟩⟩
    · simp only [unpack_state]
      cases s.unpack ctx [] item with
      | error f => exact fails
      | ok s => exact state_eachBody ⟨_, body, multiline, span, ctx⟩
    · simp only [assign_state]
      exact state_eachBody ⟨_, body, multiline, span, ctx⟩
    · simp only [unpack_state]
      cases s.unpack ctx (name :: second :: names) item with
      | error f => exact fails
      | ok s => exact state_eachBody ⟨_, body, multiline, span, ctx⟩

lemma state_eachFirst : e.state ((e.state s).eachFirst loop.untraced v.untraced) = e.state (s.eachFirst loop v) := by
  simp only [eachFirst, heap_state, elements?_untraced, Value.tag_untraced]
  cases elements? s.world.heap v with
  | none => exact fails
  | some items => exact state_eachRound []

lemma state_whileRound {loop : WhileLoop} (collected : List Value) :
    e.state ((e.state s).whileRound loop.untraced (untracedValues collected)) = e.state (s.whileRound loop collected) :=
  state_of_eq rfl

lemma state_removeNames :
    e.state ((e.state s).removeNames span' ctx.untraced names) = e.state (s.removeNames span ctx names) := by
  induction names generalizing s with
  | nil => exact state_of_eq rfl
  | cons name names ih =>
    simp only [removeNames, onTables_eq, tables_state, Context.remove_untraced]
    cases (ctx.remove s.world.tables name).1 with
    | none =>
      refine state_fail ?_
      exact state_of_eq rfl
    | some v => exact ih (s := s.setTables (ctx.remove s.world.tables name).2)

lemma state_declareNames {parent : Bool} :
    e.state ((e.state s).declareNames parent span' ctx.untraced names) = e.state
    (s.declareNames parent span ctx names) := by
  induction names generalizing s with
  | nil => exact state_of_eq rfl
  | cons name names ih =>
    simp only [declareNames, tables_state, Context.declare_untraced]
    cases ctx.declare s.world.tables name parent with
    | error f => exact fails
    | ok r => exact ih (s := s.setTables r.2)

lemma state_store {target : Node} {key value result : Value} :
    e.state ((e.state s).store target.unplaced key.untraced value.untraced result.untraced (.point 0) ctx.untraced) =
      e.state (s.store target key value result span ctx) := by
  cases target with
  | ident name place =>
    simp only [Node.unplaced, store, lookup_state]
    cases s.lookup ctx name with
    | none => exact fails
    | some container =>
      simp only [Option.map_some, heap_state, Heap.setIndex_untraced]
      cases s.world.heap.setIndex container key value with
      | error f => exact fails
      | ok r =>
        obtain ⟨changed, h⟩ := r
        simp only [Except.map, Value.isShared_untraced, setHeap_state, assign_state]
        split <;> exact state_of_eq rfl
  | binary op left right place => cases op <;> exact state_of_eq rfl
  | _ => exact state_of_eq rfl

lemma state_decorateNext {binder : Option String} :
    e.state ((e.state s).decorateNext v.untraced binder ctx.untraced (unplacedNodes nodes)) =
      e.state (s.decorateNext v binder ctx nodes) := by
  cases nodes with
  | nil => cases binder with
    | none => exact state_of_eq rfl
    | some name =>
      simp only [unplacedNodes, decorateNext, assign_state]
      exact state_of_eq rfl
  | cons n nodes =>
    refine state_eval (state_push (e.state_state s) ?_) (Node.unplaced_unplaced n) (Context.untraced_untraced ctx)
    simp [frame, unplacedNodes_unplacedNodes]

lemma state_defineNamespace : e.state ((e.state s).defineNamespace name (unplacedNodes nodes) span' ctx.untraced) =
      e.state (s.defineNamespace name nodes span ctx) := by
  obtain ⟨hinner, htables⟩ := @Context.nest_untraced ctx s.world.tables name name (some ctx.untraced) (some ctx) span'
    span
  have hvalue : (Value.namespace_ s.world.namespaces.size ⟨name, unplacedNodes nodes,
        (Context.nest name ctx.untraced (some ctx.untraced) span' s.world.tables.untraced).1⟩).untraced =
      (Value.namespace_ s.world.namespaces.size
        ⟨name, nodes, (Context.nest name ctx (some ctx) span s.world.tables).1⟩).untraced := by
    simp only [Value.untraced, Namespace.untraced, unplacedNodes_unplacedNodes, hinner]
  refine state_value (state_assign (state_of_eq ?_) (Context.untraced_untraced ctx) hvalue) hvalue
  exact congrArg (fun tables => { e.state s with world := { e.world s.world with
    tables, namespaces := s.world.namespaces.push false } }) htables

lemma state_readMember :
    e.state ((e.state s).readMember ns.untraced name span' ctx') = e.state (s.readMember ns name span ctx) := by
  have hscope : ns.untraced.context.scope = ns.context.scope := rfl
  unfold readMember
  rw [hscope, tables_state, Tables.table_untraced, Dict.get?_onValues]
  cases (s.world.tables.table (ns.context.scope.headD 0)).get? name with
  | none => exact fails
  | some v => exact state_of_eq rfl

lemma state_push_eval {f f' : Frame} {n : Node} (hf : e.frame f' = e.frame f) :
    e.state (((e.state s).push f').eval n.unplaced ctx.untraced) = e.state ((s.push f).eval n ctx) :=
  state_eval (state_push (e.state_state s) hf) (Node.unplaced_unplaced n) (Context.untraced_untraced ctx)

lemma state_namespaceNext (hp : e.place ctx' = e.place ctx) :
    e.state ((e.state s).namespaceNext ns.untraced name span' ctx' (unplacedNodes nodes)) =
      e.state (s.namespaceNext ns name span ctx nodes) := by
  cases nodes with
  | nil => exact state_readMember
  | cons n nodes =>
    refine state_push_eval ?_
    simp [frame, hp, Node.unplaced_unplaced, unplacedNodes_unplacedNodes]

lemma state_member (hp : e.place ctx' = e.place ctx) :
    e.state ((e.state s).member v.untraced name span' ctx') = e.state (s.member v name span ctx) := by
  cases v with
  | namespace_ id ns =>
    have hstarted : (e.state s).world.namespaces = s.world.namespaces := rfl
    simp only [Value.untraced, member, hstarted]
    split
    · exact state_readMember
    · exact state_namespaceNext (s := { s with world := { s.world with
        namespaces := s.world.namespaces.setIfInBounds id true } }) hp
  | _ => exact fails

lemma state_evalNode {n : Node} :
    e.state ((e.state s).evalNode n.unplaced ctx.untraced) = e.state (s.evalNode n ctx) := by
  have hs := e.state_state s
  cases n with
  | int | float | str | assign | multiAssign | indexAssign | forRange | forIn | while_ | call | continue_ | break_ =>
    exact state_of_eq rfl
  | list elements => exact state_listNext []
  | map entries => exact state_mapNext []
  | block statements => exact state_blockNext (v := .nil)
  | ident name =>
    simp only [Node.unplaced, evalNode, lookup_state]
    cases s.lookup ctx name with
    | none => exact fails
    | some v => exact state_of_eq rfl
  | alias_ name newName =>
    simp only [Node.unplaced, evalNode, lookup_state]
    cases s.lookup ctx name with
    | none => exact fails
    | some v =>
      simp only [Option.map_some, assign_state]
      exact state_of_eq rfl
  | del names => exact state_removeNames
  | binary op left right => cases op <;> exact state_of_eq rfl
  | unary | member | await => exact state_push_eval (by simp [frame])
  | branch cases_ otherwise multiline => exact state_branchNext
  | function name params body autoReturn isAsync decorators =>
    have hdecorators : (unplacedNodes decorators).reverse = unplacedNodes decorators.reverse := by
      rw [unplacedNodes_eq_map, unplacedNodes_eq_map, map_reverse]
    simp only [Node.unplaced, evalNode, hdecorators]
    exact state_decorateNext (s := { s with world := { s.world with functions := s.world.functions + 1 } })
      (v := .function s.world.functions ⟨name.getD "<anonymous>", ⟨params, body, autoReturn, isAsync⟩, ctx⟩)
  | return_ value => cases value <;> exact state_of_eq rfl
  | load path kind => exact state_load
  | namespace_ name body => exact state_defineNamespace
  | using_ names parent => exact state_declareNames

end eval

section resume

variable {c : Completion} {f : Frame}

lemma state_asResult : e.state ((e.state s).asResult c.untraced span' ctx') = e.state (s.asResult c span ctx) := by
  cases c with
  | value v | return_ v | error f => exact state_of_eq rfl
  | break_ | continue_ => exact state_finish (e.state_state s) rfl

lemma state_addArgument {callee : Value} {positional : List Value} {keywords : Dict Value} {arg : Arg}
    {args : List Arg} :
    e.state ((e.state s).addArgument callee.untraced (untracedValues positional) (untracedDict keywords) arg.unplaced
      (unplacedArgs args) (.point 0) ctx.untraced v.untraced) =
      e.state (s.addArgument callee positional keywords arg args span ctx v) := by
  cases arg with
  | positional n => exact state_argumentsNext (v :: positional) keywords
  | keyword name n =>
    simp only [Arg.unplaced, addArgument, Dict.insert_onValues]
    exact state_argumentsNext positional (keywords.insert name v)
  | spread n =>
    simp only [Arg.unplaced, addArgument, heap_state, Heap.items?_untraced]
    cases s.world.heap.items? v with
    | none => exact fails
    | some items =>
      simp only [Option.map_some, ← map_reverse, ← map_append]
      exact state_argumentsNext (items.reverse ++ positional) keywords
  | spreadKeywords n =>
    simp only [Arg.unplaced, addArgument, heap_state, Heap.entries?_untraced]
    cases s.world.heap.entries? v with
    | none => exact fails
    | some entries =>
      simp only [Option.map_some, Dict.union_onValues]
      exact state_argumentsNext positional (keywords.union entries)

lemma state_applyBinary {op : BinaryOp} {left : Value} :
    e.state ((e.state s).applyBinary op left.untraced v.untraced span' ctx') =
      e.state (s.applyBinary op left v span ctx) := by
  simp only [applyBinary_eq, heap_state, Heap.binary_untraced]
  cases s.world.heap.binary op left v with
  | error f => exact fails
  | ok r => exact state_of_eq rfl

lemma state_storeIn {outer : Option (Node × Value)} {key value result : Value} :
    e.state ((e.state s).storeIn v.untraced (outer.map fun o => (o.1.unplaced, o.2.untraced)) key.untraced
      value.untraced
      result.untraced (.point 0) ctx.untraced) = e.state (s.storeIn v outer key value result span ctx) := by
  simp only [storeIn, heap_state, Heap.setIndex_untraced]
  cases s.world.heap.setIndex v key value with
  | error f => exact fails
  | ok r => cases outer with
    | none => exact state_of_eq rfl
    | some o => exact state_store (s := s.setHeap r.2)

lemma state_resumeValue : e.state ((e.state s).resumeValue (e.frame f) v.untraced) = e.state (s.resumeValue f v) := by
  have hs := e.state_state s
  cases f with
  | listItem done rest ctx => exact state_listNext (v :: done)
  | mapKey entries key value rest ctx => cases v with
    | str name => exact state_of_eq rfl
    | _ => exact fails
  | mapValue entries key rest ctx =>
    simp only [frame, resumeValue, Dict.insert_onValues]
    exact state_mapNext (entries.insert key v)
  | statement rest ctx => exact state_blockNext
  | assign name ctx =>
    simp only [frame, resumeValue, assign_state]
    exact state_of_eq rfl
  | unpack names span ctx =>
    simp only [frame, resumeValue, unpack_state]
    cases s.unpack ctx names v with
    | error f => exact fails
    | ok s => exact state_of_eq rfl
  | storeValue target key span ctx => exact state_store
  | storeContainer outer key value result span ctx => exact state_storeIn
  | logicLeft conjunction right span ctx =>
    simp only [frame, resumeValue, heap_state, Heap.logical_untraced]
    cases s.world.heap.logical v with
    | error f => exact fails
    | ok b =>
      simp only
      split
      · exact state_push_eval (by simp [frame])
      · exact state_of_eq rfl
  | logicRight span ctx =>
    simp only [frame, resumeValue, heap_state, Heap.logical_untraced]
    cases s.world.heap.logical v with
    | error f => exact fails
    | ok b => exact state_of_eq rfl
  | binaryLeft op right span ctx => exact state_push_eval (by simp [frame])
  | binaryRight op left span ctx => exact state_applyBinary
  | unary op span ctx =>
    simp only [frame, resumeValue, heap_state, Heap.unary_untraced]
    cases s.world.heap.unary op v with
    | error f => exact fails
    | ok w => exact state_of_eq rfl
  | condition body rest otherwise multiline ctx =>
    simp only [frame, resumeValue, heap_state, Heap.truthy_untraced]
    split
    · exact state_of_eq rfl
    · exact state_branchNext
  | branchBody multiline => cases multiline <;> exact state_of_eq rfl
  | rangeStop head start =>
    obtain ⟨var, stop, step, body, multiline, span, ctx⟩ := head
    cases step with
    | none => exact state_rangeFirst (.int 1)
    | some step => exact state_of_eq rfl
  | rangeStep head start stop => exact state_rangeFirst v
  | rangeBody loop current collected => exact state_rangeNext (v :: collected)
  | eachSource loop => exact state_eachFirst
  | eachBody loop rest collected => exact state_eachRound (v :: collected)
  | whileCondition loop collected =>
    simp only [frame, resumeValue, heap_state, Heap.truthy_untraced, interruption?_state]
    split
    · cases s.interruption? with
      | some f => exact fails
      | none => exact state_of_eq rfl
    · exact state_loopValue
  | whileBody loop collected => exact state_whileRound (v :: collected)
  | decorator function span rest name ctx =>
    refine state_call (state_push hs ?_) (by simp) (by simp) rfl (e.place_untraced ctx)
    simp [frame, unplacedNodes_unplacedNodes]
  | decorated rest name ctx => exact state_decorateNext
  | callee args span ctx => exact state_argumentsNext [] []
  | argument callee positional keywords current rest span ctx => exact state_addArgument
  | member name span ctx => exact state_member (e.place_place ctx)
  | namespaceBody ns current rest name span ctx => exact state_namespaceNext (e.place_place ctx)
  | await span ctx => cases v with
    | coroutine id name => exact state_drive (e.place_place ctx)
    | _ => exact fails
  | moduleStatement current rest ctx => exact state_runStatements
  | default closure inner name node rest =>
    simp only [frame, resumeValue, assign_state]
    exact state_bindParams
  | functionBody closure inner =>
    have hreturn : closure.untraced.routine.autoReturn = closure.routine.autoReturn := rfl
    simp only [frame, resumeValue, hreturn]
    split <;> exact state_of_eq rfl
  | gathered done rest span ctx => exact @state_gatherNext e s ctx _ _ _ (v :: done) rest (e.place_place ctx)
  | settle span ctx => exact state_settled (e.place_place ctx)
  | caught | panicked => exact gives (by simp [untracedItems, Value.untraced])
  | cleanup final span ctx =>
    refine state_call (state_push (state_push hs ?_) ?_) (by simp) rfl rfl (e.place_place ctx)
    · simp [frame, Completion.untraced]
    · simp [frame]
  | storeKey | storeOuterKey | rangeStart | returned | cleanedUp | leaveModule | memoize | restoreDeadline | threadEnd
  | jobEnd => exact state_of_eq rfl

lemma state_resumeOther : e.state ((e.state s).resumeOther (e.frame f) c.untraced) = e.state (s.resumeOther f c) := by
  have hs := e.state_state s
  have hpass : e.state ((e.state s).pass c.untraced) = e.state (s.pass c) := state_of_eq rfl
  cases f with
  | rangeBody loop current collected => cases c with
    | continue_ => exact state_rangeNext collected
    | break_ => exact state_loopValue
    | _ => exact hpass
  | eachBody loop rest collected => cases c with
    | continue_ => exact state_eachRound collected
    | break_ => exact state_loopValue
    | _ => exact hpass
  | whileBody loop collected => cases c with
    | continue_ => exact state_whileRound collected
    | break_ => exact state_loopValue
    | _ => exact hpass
  | moduleStatement | functionBody => exact state_asResult
  | namespaceBody ns current rest name span ctx => cases c with
    | return_ v => exact state_readMember
    | value | error => exact state_of_eq rfl
    | break_ | continue_ => exact state_finish hs rfl
  | default closure inner name node rest => cases c with
    | return_ v =>
      simp only [frame, Completion.untraced, resumeOther, assign_state]
      exact state_bindParams
    | value | error => exact state_of_eq rfl
    | break_ | continue_ => exact state_finish hs rfl
  | caught | panicked => cases c with
    | error f => exact state_of_eq rfl
    | _ => exact hpass
  | cleanup final span ctx =>
    refine state_call (state_push (state_push hs ?_) ?_) (by simp) rfl rfl (e.place_place ctx)
    · simp [frame]
    · simp [frame]
  | _ => exact hpass

lemma result_untraced (c : Completion) : c.untraced.result = untracedResult c.result := by cases c <;> rfl

lemma sent_untraced {p : Producer} :
    (match (e.state s).outcome? p with
      | some (o, watched) => (e.state s).setOutcome p (o.send c.untraced.result) watched
      | none => e.state s) =
    e.state (match s.outcome? p with
      | some (o, watched) => s.setOutcome p (o.send c.result) watched
      | none => s) := by
  rw [outcome?_state, result_untraced]
  cases s.outcome? p with
  | none => rfl
  | some r => exact setOutcome_state (o := r.1.send c.result)

lemma unwind_state : (e.state s).unwind (e.frame f) c.untraced = e.state (s.unwind f c) := by
  cases f with
  | functionBody | leaveModule | restoreDeadline => rfl
  | memoize id =>
    simp only [frame, unwind, result_untraced]
    exact setCoroutine_state (c := .done c.result)
  | threadEnd | jobEnd => exact sent_untraced
  | _ => rfl

lemma state_resume : e.state ((e.state s).resume (e.frame f) c.untraced) = e.state (s.resume f c) := by
  unfold resume
  rw [unwind_state]
  -- Both are taken for the frame as it is, before the cases open it.
  have hvalue {s : State} {v : Value} := @state_resumeValue e s v f
  have hother {s : State} {c : Completion} := @state_resumeOther e s c f
  cases f with
  | jobEnd future pool => exact state_nextJob
  | _ => cases c with
    | value v => exact hvalue
    | return_ v => exact hother (c := .return_ v)
    | error f => exact hother (c := .error f)
    | break_ => exact hother (c := .break_)
    | continue_ => exact hother (c := .continue_)

lemma state_step : e.state (e.state s).step = e.state s.step := by
  obtain ⟨w, control, stack, depth, deadline, thread, clock⟩ := s
  cases control with
  | eval n ctx => exact state_evalNode
  | call callee args kwargs span ctx => exact state_enterCall (e.callPlace_callPlace callee ctx)
  | wait w => exact state_retry
  | done c => cases stack with
    | nil => exact e.state_state _
    | cons f stack => exact state_resume (s := ⟨w, .done c, stack, depth, deadline, thread, clock⟩)

end resume

end Erasure

end ScriptMachine
