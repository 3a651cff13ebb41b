import ScriptMachine.Proofs.Actions.Steps
import ScriptMachine.Proofs.Policy.Builtins

/-! A policy is kept by every step: of a node, of a frame, of a task and of a machine. -/

namespace ScriptMachine

open List

def Task.hasReturned (depth : Nat) (t : Task) : Bool :=
  match t.control with
  | .done _ => t.stack.length ≤ depth
  | _ => false

namespace Policy

open Contents

variable {name : String} {nodes : List Node} {P : Policy} {base : List Frame} {s : State}

lemma codes_cons {n : Node} {ctx : Context} :
    P.codes (n :: nodes) ctx ↔ P.code n ctx ∧ P.codes nodes ctx := forall_mem_cons

lemma units_cons {n : Node} {ctx : Context} :
    P.units (n :: nodes) ctx ↔ P.unit n ctx ∧ P.units nodes ctx := forall_mem_cons

lemma pairs_cons {p : Node × Node} {pairs : List (Node × Node)} {ctx : Context} :
    P.pairs (p :: pairs) ctx ↔ (P.code p.1 ctx ∧ P.code p.2 ctx) ∧ P.pairs pairs ctx := forall_mem_cons

lemma bindsAll_cons {names : List String} {ctx : Context} :
    P.bindsAll (name :: names) ctx ↔ P.binds name ctx ∧ P.bindsAll names ctx := forall_mem_cons

lemma values_optional {multiline : Bool} {v : Value} (hv : P.value v) : P.value (if multiline then .nil else v) := by
  split
  · trivial
  · exact hv

lemma bindings_declare {t : Tables} {ctx : Context} {parent : Bool} (hb : P.bindings t) :
    Gives (fun r => P.bindings r.2) (ctx.declare t name parent) :=
  .ite .error (.map (p := fun _ => True) (fun _ _ => trivial) fun _ _ => hb)

lemma bindings_moduleContext {source : Source} {parent : Option Context} {entry : Span} {isMain : Bool}
    (hb : P.bindings s.world.tables) :
    P.bindings (s.moduleContext name source parent entry isMain).2.world.tables :=
  bindings_set (forall_mem_push hb entries_nil) trivial

namespace Holds

variable {c : Completion} {collected positional items : List Value} {nodes : List Node} {names : List String}
  {name : String} {f : Frame} {loop : EachLoop} {multiline : Bool} {callee key result : Value} {keywords : Dict Value}
  {ns : Namespace} {ctx : Context} {span : Span} {v : Value} (h : P.Holds base s)
include h

lemma listNext {done : List Value} (hd : P.values done) (hn : P.codes nodes ctx) :
    P.Ready base (s.listNext ctx done nodes) := by
  cases nodes with
  | nil => exact h.value (value_list.2 (values_reverse.2 hd))
  | cons n nodes =>
    obtain ⟨hfirst, hrest⟩ := codes_cons.1 hn
    exact (h.push (f := .listItem done nodes ctx) ⟨hd, hrest⟩).eval hfirst

lemma mapNext {entries : Dict Value} {nodes : List (Node × Node)} (he : P.entries entries) (hn : P.pairs nodes ctx) :
    P.Ready base (s.mapNext ctx entries nodes) := by
  cases nodes with
  | nil => exact h.value (value_map.2 he)
  | cons n nodes =>
    obtain ⟨⟨hkey, hvalue⟩, hrest⟩ := pairs_cons.1 hn
    exact (h.push (f := .mapKey entries n.1 n.2 nodes ctx) ⟨he, hkey, hvalue, hrest⟩).eval hkey

lemma branchNext {otherwise : Option Node} {cases_ : List (Node × Node)} (hc : P.pairs cases_ ctx)
    (ho : ∀ n ∈ otherwise, P.code n ctx) : P.Ready base (s.branchNext otherwise multiline ctx cases_) := by
  cases cases_ with
  | nil =>
    cases otherwise with
    | none => exact h.value trivial
    | some body => exact (h.push (f := .branchBody multiline) trivial).eval (ho body rfl)
  | cons c cases_ =>
    obtain ⟨⟨hcondition, hbody⟩, hrest⟩ := pairs_cons.1 hc
    exact (h.push (f := .condition c.2 cases_ otherwise multiline ctx) ⟨hbody, hrest, ho⟩).eval hcondition

lemma argumentsNext {args : List Arg} (hv : P.values (callee :: positional)) (hk : P.entries keywords)
    (ha : P.codes (args.map State.argumentNode) ctx) (hp : P.place span ctx) :
    P.Ready base (s.argumentsNext callee positional keywords span ctx args) := by
  cases args with
  | nil =>
    obtain ⟨hcallee, hpositional⟩ := values_cons.1 hv
    exact h.call (values_cons.2 ⟨hcallee, values_reverse.2 hpositional⟩) hk hp
  | cons arg args =>
    exact (h.push (f := .argument callee positional keywords arg args span ctx) ⟨hv, hk, ha, hp⟩).eval
      (codes_cons.1 ha).1

lemma loopValue (hc : P.values collected) :
    P.Ready base (s.loopValue multiline collected) := h.value (values_optional (value_list.2 (values_reverse.2 hc)))

omit h in
lemma gives_unpacked {x : Heap} (hx : P.heap x) (hv : P.value v) : Gives P.values (State.unpacked x names v) := by
  unfold State.unpacked
  split
  · exact .error
  · rename_i items hitems
    have hvalues := items?_value hx hv hitems
    refine .ite (.ok ?_) .error
    split
    · rename_i inner _ _ _
      cases hinner : x.items? inner with
      | none => exact hvalues
      | some items => exact items?_value hx (values_cons.1 hvalues).1 hinner
    · exact hvalues

omit h in
lemma values_elements? {x : Heap} (hx : P.heap x) (hv : P.value v) (hi : State.elements? x v = some items) :
    P.values items := by
  unfold State.elements? at hi
  split at hi
  · cases hi
    intro v hv
    obtain ⟨c, -, rfl⟩ := mem_map.1 hv
    trivial
  · cases hi
    intro v hv
    obtain ⟨c, -, rfl⟩ := mem_map.1 hv
    trivial
  · rcases Option.or_eq_some_iff.1 hi with hi | ⟨-, hi⟩
    · exact items?_value hx hv hi
    · obtain ⟨entries, hentries, rfl⟩ := Option.map_eq_some_iff.1 hi
      intro v hv
      obtain ⟨e, he, rfl⟩ := mem_map.1 hv
      have hvalue := entries?_value hx ‹_› hentries e he
      exact value_list.2 (values_cons.2 ⟨trivial, values_cons.2 ⟨hvalue, values_nil⟩⟩)

lemma whileRound {loop : WhileLoop} (hl : P.whileLoop loop) (hc : P.values collected) :
    P.Ready base (s.whileRound loop collected) :=
  (h.push (f := .whileCondition loop collected) ⟨hl, hc⟩).eval hl.1

lemma setDepth {depth : Nat} : P.Holds base { s with task := { s.task with depth } } := ⟨h.world, h.tables, h.stack⟩

lemma asResult (hc : P.completion c) (hs : ∀ fault, c.stray? = some fault → P.failure (fault.at_ span ctx)) :
    P.Ready base (s.asResult c span ctx) := by
  cases c with
  | value v | return_ v => exact h.value hc
  | error f => exact h.finish hc
  | break_ | continue_ => exact h.finish (hs _ rfl)

lemma cleanup {final : Value} (hf : P.value final) (hc : P.completion c) (hp : P.place span ctx) :
    P.Ready base (((s.push (.cleanedUp c)).push (.settle span ctx)).call final [] [] span ctx) := by
  have hpush := (h.push (f := .cleanedUp c) hc).push (f := .settle span ctx) hp
  exact hpush.call (values_cons.2 ⟨hf, values_nil⟩) entries_nil hp

omit h in
lemma result_completion (hc : P.completion c) : P.result c.result := by
  cases c with
  | value | return_ | error => exact hc
  | break_ | continue_ => trivial

omit h in
lemma outcome_send {o : Outcome} {r : Result} (ho : P.outcome o) (hr : P.result r) : P.outcome (o.send r) :=
  ⟨fun _ heq => Option.some.inj heq ▸ hr, ho.2⟩

lemma unwind (hc : P.completion c) : P.Holds base (s.unwind f c) := by
  cases f with
  | functionBody | leaveModule | restoreDeadline => exact ⟨h.world, h.tables, h.stack⟩
  | memoize id => exact h.setCoroutine (c := .done c.result) (result_completion hc)
  | threadEnd number | jobEnd future pool =>
    unfold State.unwind
    dsimp only
    split
    · rename_i o watched ho
      exact h.setOutcome (outcome_send (h.outcome ho) (result_completion hc))
    · exact h
  | _ => exact h

variable (L : P.Lawful)
include L

lemma blockNext (hv : P.value v) (hn : P.codes nodes ctx) : P.Ready base (s.blockNext ctx v nodes) := by
  cases nodes with
  | nil => exact h.value hv
  | cons n nodes =>
    obtain ⟨hfirst, hrest⟩ := codes_cons.1 hn
    unfold State.blockNext
    dsimp only
    split
    · exact h.fail L (L.span hfirst)
    · exact (h.push (f := .statement nodes ctx) hrest).eval hfirst

lemma assignAll {bindings : List (String × Value)}
    (hb : ∀ b ∈ bindings, P.binds b.1 ctx ∧ P.value b.2) : P.Holds base (s.assignAll ctx bindings) := by
  induction bindings generalizing s with
  | nil => exact h
  | cons b bindings ih =>
    obtain ⟨hfirst, hrest⟩ := forall_mem_cons.1 hb
    exact ih (h.assign L hfirst.1 hfirst.2) hrest

lemma unpack (hn : P.bindsAll names ctx) (hv : P.value v) : Gives (P.Holds base) (s.unpack ctx names v) := by
  refine .bind fun items hitems => .ok (h.assignAll L fun b hb => ?_)
  obtain ⟨hname, hitem⟩ := of_mem_zip hb
  exact ⟨hn b.1 hname, gives_unpacked h.world.heap hv items hitems b.2 hitem⟩

lemma rangeRound {loop : RangeLoop} (hl : P.rangeLoop loop) (hv : P.value v) (hc : P.values collected) :
    P.Ready base (s.rangeRound loop v collected) := by
  obtain ⟨hbinds, hstop, hstep, hbody, hplace⟩ := id hl
  unfold State.rangeRound
  split
  · exact h.fail L hplace
  · exact h.loopValue hc
  · have hassigned := h.assign L hbinds hv
    dsimp only
    split
    · exact hassigned.fail L hplace
    · exact (hassigned.push (f := .rangeBody loop v collected) ⟨hl, hv, hc⟩).eval hbody

lemma rangeFirst {head : RangeHead} {start stop step : Value} (hh : P.rangeHead head)
    (hv : P.values [start, stop, step]) : P.Ready base (s.rangeFirst head start stop step) := by
  obtain ⟨hbinds, hstopNode, hstepNode, hbody, hplace⟩ := hh
  simp only [values_cons, values_nil, and_true] at hv
  unfold State.rangeFirst
  split
  · exact h.fail L hplace
  · split
    · exact h.fail L hplace
    · split
      · exact h.fail L hplace
      · exact h.rangeRound L ⟨hbinds, hv.2.1, hv.2.2, hbody, hplace⟩ hv.1 values_nil

lemma rangeNext {loop : RangeLoop} (hl : P.rangeLoop loop) (hv : P.value v) (hc : P.values collected) :
    P.Ready base (s.rangeNext loop v collected) := by
  unfold State.rangeNext
  split
  · exact h.fail L hl.2.2.2.2
  · rename_i next x hadd
    have hoperated := gives_add h.world.heap hv hl.2.2.1 _ hadd
    exact (h.setHeap hoperated.2).rangeRound L hl hoperated.1 hc

lemma bindItem {item : Value} (hbinds : P.bindsAll loop.vars loop.ctx) (hitem : P.value item) :
    Gives (P.Holds base) (match loop.vars with
      | [name] => .ok (s.assign loop.ctx name item)
      | names => s.unpack loop.ctx names item) := by
  split
  · rename_i name hname
    exact .ok (h.assign L (hbinds name (by simp [hname])) hitem)
  · exact h.unpack L hbinds hitem

lemma eachRound (hl : P.eachLoop loop) (hc : P.values collected) (hi : P.values items) :
    P.Ready base (s.eachRound loop collected items) := by
  obtain ⟨hbinds, hbody, hplace⟩ := id hl
  cases items with
  | nil => exact h.loopValue hc
  | cons item rest =>
    obtain ⟨hitem, hrest⟩ := values_cons.1 hi
    unfold State.eachRound
    dsimp only
    split
    · exact h.fail L hplace
    · rename_i bound heq
      have hassigned := h.bindItem L hbinds hitem bound heq
      split
      · exact hassigned.fail L hplace
      · exact (hassigned.push (f := .eachBody loop rest collected) ⟨hl, hrest, hc⟩).eval hbody

lemma eachFirst (hl : P.eachLoop loop) (hv : P.value v) : P.Ready base (s.eachFirst loop v) := by
  unfold State.eachFirst
  split
  · rename_i items hitems
    exact h.eachRound L hl values_nil (values_elements? h.world.heap hv hitems)
  · exact h.fail L hl.2.2

lemma removeNames (hn : P.bindsAll names ctx) (hp : P.place span ctx) :
    P.Ready base (s.removeNames span ctx names) := by
  induction names generalizing s with
  | nil => exact h.value trivial
  | cons name names ih =>
    obtain ⟨hname, hrest⟩ := bindsAll_cons.1 hn
    have hb : P.bindings (ctx.remove s.world.tables name).2 := bindings_erase (bindings_erase h.world.bindings)
    have hremoved : P.Holds base (s.onTables (ctx.remove · name)).2 := h.setTables (L.remove hname h.tables) hb
    simp only [State.removeNames, State.onTables_eq]
    split
    · exact ih hremoved hrest
    · exact hremoved.fail L hp

lemma declareNames {all : List String} {parent : Bool} (hc : P.code (.using_ all parent span) ctx)
    (hn : ∀ name ∈ names, name ∈ all) : P.Ready base (s.declareNames parent span ctx names) := by
  induction names generalizing s with
  | nil => exact h.value trivial
  | cons name names ih =>
    obtain ⟨hname, hrest⟩ := forall_mem_cons.1 hn
    unfold State.declareNames
    split
    · rename_i b tables hdeclared
      have hb : P.bindings tables := bindings_declare h.world.bindings _ hdeclared
      exact ih (h.setTables (L.declare hc hname hdeclared h.tables) hb) hrest
    · exact h.fail L (L.span hc)

lemma store {target : Node} {w : Value} (ht : P.storable target ctx) (hv : P.values [key, w, result])
    (hp : P.place span ctx) : P.Ready base (s.store target key w result span ctx) := by
  obtain ⟨hcode, hroot⟩ := id ht
  have hvalues := hv
  simp only [values_cons, values_nil, and_true] at hv
  unfold State.store
  split
  · rename_i name place
    split
    · exact h.fail L (L.span hcode)
    · rename_i container hcontainer
      split
      · exact h.fail L hp
      · rename_i changed x hset
        have hoperated := gives_setIndex h.world.heap (h.lookup hcontainer) hv.2.1 _ hset
        have hstored := h.setHeap hoperated.2
        dsimp only
        split
        · exact hstored.value hv.2.2
        · exact (hstored.assign L (hroot name rfl) hoperated.1).value hv.2.2
  · rename_i left right place
    have hleft : P.storable left ctx := ⟨L.part hcode (.head _), hroot⟩
    have hframe : P.frame (.storeOuterKey left (.binary .index left right place) key w result span ctx) :=
      ⟨hleft, hcode, hvalues, hp⟩
    exact (h.push hframe).eval (L.part hcode (.tail _ (.head _)))
  · rename_i other _ _
    have hframe : P.frame (.storeContainer none key w result span ctx) := ⟨by simp, hvalues, hp⟩
    exact (h.push hframe).eval hcode

lemma decorateNext {name : Option String} {decorators : List Node} (hv : P.value v)
    (hn : P.bindsAll name.toList ctx) (hd : P.codes decorators ctx) :
    P.Ready base (s.decorateNext v name ctx decorators) := by
  cases decorators with
  | nil =>
    cases name with
    | none => exact h.value hv
    | some name => exact (h.assign L (hn name (.head _)) hv).value hv
  | cons d decorators =>
    obtain ⟨hfirst, hrest⟩ := codes_cons.1 hd
    exact (h.push (f := .decorator v d.span decorators name ctx) ⟨hv, L.span hfirst, hrest, hn⟩).eval hfirst

lemma defineNamespace (hs : P.sees s) {body : List Node}
    (hn : s.task.control = .eval (.namespace_ name body span) ctx) (hc : P.code (.namespace_ name body span) ctx) :
    P.Ready base (s.defineNamespace name body span ctx) := by
  obtain ⟨htables, hspace⟩ := L.define hs hn hc h.tables
  have hnested := h.nest htables
  have hcounted : P.Holds base { (s.onTables (Context.nest name ctx (some ctx) span)).2 with
      world := { (s.onTables (Context.nest name ctx (some ctx) span)).2.world with
        namespaces := s.world.namespaces.push false } } := ⟨{ hnested.world with }, hnested.tables, hnested.stack⟩
  have hname : P.binds name ctx := L.target hc (.head _)
  exact (hcounted.assign L (v := .namespace_ _ _) hname hspace).value hspace

lemma readMember (hp : P.place span ctx) : P.Ready base (s.readMember ns name span ctx) := by
  unfold State.readMember
  split
  · rename_i v hv
    exact h.value (value_of_get? (forall_getD h.world.bindings entries_nil) hv)
  · exact h.fail L hp

lemma namespaceNext {id : Nat} (hs : P.space id ns) (hn : P.units nodes ns.context) (hp : P.place span ctx) :
    P.Ready base (s.namespaceNext ns name span ctx nodes) := by
  cases nodes with
  | nil => exact h.readMember L hp
  | cons n nodes =>
    exact (h.push (f := .namespaceBody ns n nodes name span ctx) ⟨⟨id, hs⟩, hn, hp⟩).eval
      (L.run (units_cons.1 hn).1)

lemma member (hv : P.value v) (hp : P.place span ctx) : P.Ready base (s.member v name span ctx) := by
  unfold State.member
  split
  · rename_i id ns
    split
    · exact h.readMember L hp
    · have hstarted : P.Holds base { s with world := { s.world with
          namespaces := s.world.namespaces.setIfInBounds id true } } := ⟨{ h.world with }, h.tables, h.stack⟩
      exact hstarted.namespaceNext L hv (L.member hv) hp
  · exact h.fail L hp

lemma runStatements (hv : P.value v) (hn : P.units nodes ctx) : P.Ready base (s.runStatements ctx v nodes) := by
  cases nodes with
  | nil => exact h.value hv
  | cons n nodes => exact (h.push (f := .moduleStatement n nodes ctx) hn).eval (L.run (units_cons.1 hn).1)

lemma load (hs : P.sees s) {path : String} {kind : LoadKind}
    (hn : s.task.control = .eval (.load path kind span) ctx) (hc : P.code (.load path kind span) ctx) :
    P.Ready base (s.load path kind span ctx) := by
  have hp : P.place span ctx := L.span hc
  unfold State.load
  split
  · exact h.fail L hp
  · rename_i source m hfound
    split
    · exact h.fail L hp
    · obtain ⟨htables, hcodes⟩ := L.load hs hn hc hfound h.tables
      have hb : P.bindings (s.moduleContext "<module>" source (some ctx) span false).2.world.tables :=
        bindings_moduleContext h.world.bindings
      have hopened : P.Holds base (s.moduleContext "<module>" source (some ctx) span false).2 := h.setTables htables hb
      have hpush := hopened.push (f := .leaveModule) trivial
      exact hpush.setDepth.runStatements L (v := .nil) trivial hcodes

lemma evalNode (hs : P.sees s) {n : Node} (he : s.task.control = .eval n ctx) (hn : P.code n ctx) :
    P.Ready base (s.evalNode n ctx) := by
  have hp : P.place n.span ctx := L.span hn
  have hpart {m : Node} : m ∈ n.parts → P.code m ctx := L.part hn
  have htarget {name : String} : name ∈ n.targets → P.binds name ctx := L.target hn
  cases n with
  | int | float | str => exact h.value trivial
  | list elements span => exact h.listNext values_nil fun m hm => hpart hm
  | map entries span =>
    refine h.mapNext entries_nil fun e he => ⟨hpart ?_, hpart ?_⟩
    · exact mem_append_left _ (mem_map_of_mem he)
    · exact mem_append_right _ (mem_map_of_mem he)
  | block statements span => exact h.blockNext L trivial fun m hm => hpart hm
  | ident name span =>
    unfold State.evalNode
    dsimp only
    split
    · rename_i hv
      exact h.value (h.lookup hv)
    · exact h.fail L hp
  | assign name value span =>
    have hname : P.binds name ctx := htarget (.head _)
    exact (h.push (f := .assign name ctx) hname).eval (hpart (.head _))
  | multiAssign names value span =>
    have hframe : P.frame (.unpack names span ctx) := ⟨fun name hname => htarget hname, hp⟩
    exact (h.push hframe).eval (hpart (.head _))
  | alias_ name newName span =>
    unfold State.evalNode
    dsimp only
    split
    · rename_i hv
      exact (h.assign L (htarget (.head _)) (h.lookup hv)).value (h.lookup hv)
    · exact h.fail L hp
  | indexAssign target index value span =>
    have hstorable : P.storable target ctx :=
      ⟨hpart (.head _), fun name hname => htarget (Option.mem_toList.2 hname)⟩
    have hframe : P.frame (.storeKey target value span ctx) :=
      ⟨hstorable, hpart (.tail _ (.tail _ (.head _))), hp⟩
    exact (h.push hframe).eval (hpart (.tail _ (.head _)))
  | del names span => exact h.removeNames L (fun name hname => htarget hname) hp
  | binary op left right span =>
    have hright : P.code right ctx := hpart (.tail _ (.head _))
    have hleft : P.code left ctx := hpart (.head _)
    have hlogic (b : Bool) : P.frame (.logicLeft b right span ctx) := ⟨hright, hp⟩
    have hbinary : P.frame (.binaryLeft op right span ctx) := ⟨hright, hp⟩
    cases op with
    | and_ | or_ => exact (h.push (hlogic _)).eval hleft
    | _ => exact (h.push hbinary).eval hleft
  | unary op operand span => exact (h.push (f := .unary op span ctx) hp).eval (hpart (.head _))
  | branch cases_ otherwise multiline span =>
    refine h.branchNext (fun c hc => ⟨hpart ?_, hpart ?_⟩) fun m hm => hpart ?_
    · exact mem_append_left _ (mem_append_left _ (mem_map_of_mem hc))
    · exact mem_append_left _ (mem_append_right _ (mem_map_of_mem hc))
    · exact mem_append_right _ (Option.mem_toList.2 hm)
  | forRange var start stop step body multiline span =>
    have hhead : P.rangeHead ⟨var, stop, step, body, multiline, span, ctx⟩ :=
      ⟨htarget (.head _), hpart (.tail _ (.head _)),
        fun m hm => hpart (mem_append_right _ (Option.mem_toList.2 hm)), hpart (.tail _ (.tail _ (.head _))), hp⟩
    exact (h.push (f := .rangeStart _) hhead).eval (hpart (.head _))
  | forIn vars iterable body multiline span =>
    have hloop : P.eachLoop ⟨vars, body, multiline, span, ctx⟩ :=
      ⟨fun name hname => htarget hname, hpart (.tail _ (.head _)), hp⟩
    exact (h.push (f := .eachSource _) hloop).eval (hpart (.head _))
  | while_ condition body multiline span =>
    exact h.whileRound ⟨hpart (.head _), hpart (.tail _ (.head _)), hp⟩ values_nil
  | function name params body autoReturn isAsync decorators span =>
    have hclosure := L.function hn
    have hcounted : P.Holds base { s with world := { s.world with functions := s.world.functions + 1 } } :=
      ⟨{ h.world with }, h.tables, h.stack⟩
    exact hcounted.decorateNext L (v := .function _ _) hclosure (fun name hname => htarget hname)
      fun m hm => hpart (mem_reverse.1 hm)
  | call callee args span =>
    have hframe : P.frame (.callee args span ctx) := ⟨fun m hm => hpart (.tail _ hm), hp⟩
    exact (h.push hframe).eval (hpart (.head _))
  | member object name span => exact (h.push (f := .member name span ctx) hp).eval (hpart (.head _))
  | await value span => exact (h.push (f := .await span ctx) hp).eval (hpart (.head _))
  | return_ value span =>
    cases value with
    | none => exact h.finish (c := .return_ .nil) trivial
    | some value => exact (h.push (f := .returned) trivial).eval (hpart (.head _))
  | continue_ span => exact h.finish (c := .continue_) trivial
  | break_ span => exact h.finish (c := .break_) trivial
  | load path kind span => exact h.load L hs he hn
  | namespace_ name body span => exact h.defineNamespace L hs he hn
  | using_ names parent span => exact h.declareNames L hn fun name hname => hname

lemma addArgument {current : Arg} {rest : List Arg} (hv : P.values (callee :: positional))
    (hk : P.entries keywords) (ha : P.codes ((current :: rest).map State.argumentNode) ctx) (hp : P.place span ctx)
    (hw : P.value v) : P.Ready base (s.addArgument callee positional keywords current rest span ctx v) := by
  obtain ⟨hcallee, hpositional⟩ := values_cons.1 hv
  obtain ⟨hnode, hrest⟩ := codes_cons.1 ha
  unfold State.addArgument
  split
  · exact h.argumentsNext (values_cons.2 ⟨hcallee, values_cons.2 ⟨hw, hpositional⟩⟩) hk hrest hp
  · exact h.argumentsNext hv (entries_insert hk hw) hrest hp
  · split
    · rename_i items hitems
      have hitems := items?_value h.world.heap hw hitems
      refine h.argumentsNext (values_cons.2 ⟨hcallee, values_append.2 ⟨values_reverse.2 hitems, hpositional⟩⟩) hk
        hrest hp
    · exact h.fail L (L.span hnode)
  · split
    · rename_i entries hentries
      exact h.argumentsNext hv (entries_union hk (entries?_value h.world.heap hw hentries)) hrest hp
    · exact h.fail L (L.span hnode)

lemma applyBinary {op : BinaryOp} {left right : Value} (hl : P.value left) (hr : P.value right)
    (hp : P.place span ctx) : P.Ready base (s.applyBinary op left right span ctx) := by
  rw [State.applyBinary_eq]
  split
  · rename_i w x hw
    exact h.operated (gives_binary h.world.heap hl hr _ hw)
  · exact h.fail L hp

lemma storeIn {outer : Option (Node × Value)} {w : Value} (hv : P.value v)
    (ho : ∀ o ∈ outer, P.storable o.1 ctx ∧ P.value o.2) (hw : P.values [key, w, result]) (hp : P.place span ctx) :
    P.Ready base (s.storeIn v outer key w result span ctx) := by
  simp only [values_cons, values_nil, and_true] at hw
  unfold State.storeIn
  split
  · exact h.fail L hp
  · rename_i changed x hset
    have hoperated := gives_setIndex h.world.heap hv hw.2.1 _ hset
    have hstored := h.setHeap hoperated.2
    cases outer with
    | none => exact hstored.value hw.2.2
    | some o =>
      obtain ⟨hstorable, hkey⟩ := ho o rfl
      exact hstored.store L hstorable (by simpa using ⟨hkey, hoperated.1, hw.2.2⟩) hp

lemma resumeValue (hf : P.frame f) (hv : P.value v) : P.Ready base (s.resumeValue f v) := by
  cases f with
  | listItem done rest ctx => exact h.listNext (values_cons.2 ⟨hv, hf.1⟩) hf.2
  | mapKey entries key value rest ctx =>
    obtain ⟨hentries, hkey, hvalue, hrest⟩ := hf
    unfold State.resumeValue
    dsimp only
    split
    · exact (h.push (f := .mapValue entries _ rest ctx) ⟨hentries, hrest⟩).eval hvalue
    · exact h.fail L (L.span hkey)
  | mapValue entries key rest ctx => exact h.mapNext (entries_insert hf.1 hv) hf.2
  | statement rest ctx => exact h.blockNext L hv hf
  | assign name ctx => exact (h.assign L hf hv).value hv
  | unpack names span ctx =>
    unfold State.resumeValue
    dsimp only
    split
    · rename_i unpacked hunpacked
      exact (h.unpack L hf.1 hv unpacked hunpacked).value hv
    · exact h.fail L hf.2
  | storeKey target value span ctx =>
    obtain ⟨hstorable, hvalue, hp⟩ := hf
    exact (h.push (f := .storeValue target v span ctx) ⟨hstorable, hv, hp⟩).eval hvalue
  | storeValue target key span ctx =>
    obtain ⟨hstorable, hkey, hp⟩ := hf
    exact h.store L hstorable (by simpa using ⟨hkey, hv⟩) hp
  | storeOuterKey left target key value result span ctx =>
    obtain ⟨hleft, htarget, hvalues, hp⟩ := hf
    have hframe : P.frame (.storeContainer (some (left, v)) key value result span ctx) :=
      ⟨fun o ho => Option.some.inj ho ▸ ⟨hleft, hv⟩, hvalues, hp⟩
    exact (h.push hframe).eval htarget
  | storeContainer outer key value result span ctx => exact h.storeIn L hv hf.1 hf.2.1 hf.2.2
  | logicLeft conjunction right span ctx =>
    unfold State.resumeValue
    dsimp only
    split
    · exact h.fail L hf.2
    · split
      · exact (h.push (f := .logicRight span ctx) hf.2).eval hf.1
      · exact h.value trivial
  | logicRight span ctx =>
    unfold State.resumeValue
    dsimp only
    split
    · exact h.fail L hf
    · exact h.value trivial
  | binaryLeft op right span ctx => exact (h.push (f := .binaryRight op v span ctx) ⟨hv, hf.2⟩).eval hf.1
  | binaryRight op left span ctx => exact h.applyBinary L hf.1 hv hf.2
  | unary op span ctx =>
    unfold State.resumeValue
    dsimp only
    split
    · rename_i w hw
      exact h.value (gives_unary w hw)
    · exact h.fail L hf
  | condition body rest otherwise multiline ctx =>
    unfold State.resumeValue
    dsimp only
    split
    · exact (h.push (f := .branchBody multiline) trivial).eval hf.1
    · exact h.branchNext hf.2.1 hf.2.2
  | branchBody multiline => exact h.value (values_optional hv)
  | rangeStart head => exact (h.push (f := .rangeStop head v) ⟨hf, hv⟩).eval hf.2.1
  | rangeStop head start =>
    obtain ⟨hhead, hstart⟩ := hf
    unfold State.resumeValue
    dsimp only
    split
    · rename_i step hstep
      exact (h.push (f := .rangeStep head start v) ⟨hhead, hstart, hv⟩).eval (hhead.2.2.1 step hstep)
    · exact h.rangeFirst L hhead (by simpa using ⟨hstart, hv, trivial⟩)
  | rangeStep head start stop =>
    obtain ⟨hhead, hstart, hstop⟩ := hf
    exact h.rangeFirst L hhead (by simpa using ⟨hstart, hstop, hv⟩)
  | rangeBody loop current collected => exact h.rangeNext L hf.1 hf.2.1 (values_cons.2 ⟨hv, hf.2.2⟩)
  | eachSource loop => exact h.eachFirst L hf hv
  | eachBody loop rest collected => exact h.eachRound L hf.1 (values_cons.2 ⟨hv, hf.2.2⟩) hf.2.1
  | whileCondition loop collected =>
    obtain ⟨hloop, hcollected⟩ := hf
    unfold State.resumeValue
    dsimp only
    split
    · split
      · exact h.fail L hloop.2.2
      · exact (h.push (f := .whileBody loop collected) ⟨hloop, hcollected⟩).eval hloop.2.1
    · exact h.loopValue hcollected
  | whileBody loop collected => exact h.whileRound hf.1 (values_cons.2 ⟨hv, hf.2⟩)
  | decorator function span rest name ctx =>
    obtain ⟨hfunction, hp, hrest, hname⟩ := hf
    have hpush := h.push (f := .decorated rest name ctx) ⟨hrest, hname⟩
    exact hpush.call (values_cons.2 ⟨hv, values_cons.2 ⟨hfunction, values_nil⟩⟩) entries_nil hp
  | decorated rest name ctx => exact h.decorateNext L hv hf.2 hf.1
  | callee args span ctx => exact h.argumentsNext (values_cons.2 ⟨hv, values_nil⟩) entries_nil hf.1 hf.2
  | argument callee positional keywords current rest span ctx => exact h.addArgument L hf.1 hf.2.1 hf.2.2.1 hf.2.2.2 hv
  | member name span ctx => exact h.member L hv hf
  | namespaceBody ns current rest name span ctx =>
      exact h.namespaceNext L hf.1.choose_spec (units_cons.1 hf.2.1).2 hf.2.2
  | await span ctx =>
    unfold State.resumeValue
    dsimp only
    split
    · exact h.drive L hf
    · exact h.fail L hf
  | returned => exact h.finish (c := .return_ v) hv
  | moduleStatement current rest ctx => exact h.runStatements L hv (units_cons.1 hf).2
  | default closure inner name node rest =>
    obtain ⟨hentered, -, hname, hrest⟩ := hf
    exact bindParams L hentered hrest (h.assign L hname hv)
  | functionBody closure inner =>
    unfold State.resumeValue
    dsimp only
    split
    · exact h.value hv
    · exact h.value trivial
  | gathered done rest span ctx => exact h.gatherNext L (values_cons.2 ⟨hv, hf.1⟩) hf.2.1 hf.2.2
  | settle span ctx => exact h.settled L hv hf
  | caught => exact h.value (value_list.2 (values_cons.2 ⟨hv, values_cons.2 ⟨trivial, values_nil⟩⟩))
  | panicked =>
    exact h.value (value_list.2 (values_cons.2 ⟨hv, values_cons.2 ⟨trivial, values_cons.2 ⟨trivial, values_nil⟩⟩⟩))
  | cleanup final span ctx => exact h.cleanup (c := .value v) hf.1 hv hf.2
  | cleanedUp result => exact h.finish hf
  | leaveModule | memoize | restoreDeadline | threadEnd | jobEnd => exact h.value hv

lemma resumeOther (hf : P.frame f) (hc : P.completion c)
    (hs : f.unit?.isSome = true → ∀ fault span ctx, c.stray? = some fault → P.place span ctx →
      P.failure (fault.at_ span ctx)) : P.Ready base (s.resumeOther f c) := by
  unfold State.resumeOther
  split
  · exact h.rangeNext L hf.1 hf.2.1 hf.2.2
  · exact h.loopValue hf.2.2
  · exact h.eachRound L hf.1 hf.2.2 hf.2.1
  · exact h.loopValue hf.2.2
  · exact h.whileRound hf.1 hf.2
  · exact h.loopValue hf.2
  · exact h.asResult hc fun _ hstray => hs rfl _ _ _ hstray (L.span (L.run (units_cons.1 hf).1))
  · exact h.readMember L hf.2.2
  · exact h.asResult hc fun _ hstray => hs rfl _ _ _ hstray (L.span (L.run (units_cons.1 hf.2.1).1))
  · obtain ⟨hentered, -, hname, hrest⟩ := hf
    exact bindParams L hentered hrest (h.assign L hname hc)
  · exact h.asResult hc fun _ hstray => hs rfl _ _ _ hstray (L.span (L.run hf.2.1))
  · exact h.asResult hc fun _ hstray => hs rfl _ _ _ hstray (L.span (L.run hf))
  · exact h.value (value_list.2 (values_cons.2 ⟨trivial, values_cons.2 ⟨trivial, values_nil⟩⟩))
  · exact h.value (value_list.2 (values_cons.2 ⟨trivial, values_cons.2 ⟨trivial, values_cons.2 ⟨trivial, values_nil⟩⟩⟩))
  · exact h.cleanup hf.1 hc hf.2
  · exact h.finish hc

lemma resume (hf : P.above base f) (hc : P.completion c)
    (hs : f.unit?.isSome = true → ∀ fault span ctx, c.stray? = some fault → P.place span ctx →
      P.failure (fault.at_ span ctx)) : P.Ready base (s.resume f c) := by
  have hunwound : P.Holds base (s.unwind f c) := h.unwind hc
  rcases hf with hf | ⟨rfl, future, pool, rfl⟩
  · unfold State.resume
    dsimp only
    split
    · exact hf.elim
    · exact hunwound.resumeValue L hf hc
    · exact hunwound.resumeOther L hf hc hs
  · exact hunwound.nextJob

end Holds

theorem Ready.step (L : P.Lawful) (h : P.Ready base s) (hs : P.sees s)
    (hl : base = [] ∨ s.task.hasReturned base.length = false) :
    P.Ready base s.step := by
  have hcontrol := h.control
  unfold State.step
  split
  · rename_i node ctx heq
    rw [heq] at hcontrol
    exact h.evalNode L hs heq hcontrol
  · rename_i callee args kwargs span ctx heq
    rw [heq] at hcontrol
    exact h.enterCall L hcontrol.1 hcontrol.2.1 hcontrol.2.2
  · rename_i w heq
    rw [heq] at hcontrol
    exact h.retry L hcontrol
  · rename_i c heq
    rw [heq] at hcontrol
    split
    · exact h
    · rename_i frame rest hstack
      obtain ⟨inner, happend, hinner⟩ := h.stack
      have hne : inner ≠ [] := by
        rintro rfl
        rw [nil_append] at happend
        rcases hl with rfl | hl
        · rw [happend] at hstack
          contradiction
        · simp [Task.hasReturned, heq, happend] at hl
      obtain ⟨f, inner, rfl⟩ := exists_cons_of_ne_nil hne
      rw [hstack] at happend
      cases happend
      obtain ⟨hf, hrest⟩ := forall_mem_cons.1 hinner
      have hpopped : P.Holds base { s with task := { s.task with stack := inner ++ base } } :=
        ⟨h.world, h.tables, inner, rfl, hrest⟩
      exact hpopped.resume L hf hcontrol fun hunit _ _ _ hstray hp => L.stray hs heq hstack hunit hstray hp

end Policy

end ScriptMachine
