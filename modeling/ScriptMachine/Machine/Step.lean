import ScriptMachine.Machine.Eval

/-! One step of a task: the next piece of code, a wait that may be over, or the frame on top of the stack. -/

namespace ScriptMachine

def Completion.stray? : Completion → Option Reason
  | .break_ => some .strayBreak
  | .continue_ => some .strayContinue
  | _ => none

namespace State

def pass (s : State) (c : Completion) : State := s.finish c

def asResult (s : State) (c : Completion) (span : Span) (ctx : Context) : State :=
  match c with
  | .value v | .return_ v => s.value v
  | .error f => s.finish (.error f)
  | .break_ => s.finish (.error (Reason.strayBreak.at_ span ctx))
  | .continue_ => s.finish (.error (Reason.strayContinue.at_ span ctx))

def addArgument (s : State) (callee : Value) (positional : List Value) (keywords : Dict Value) (current : Arg)
    (rest : List Arg) (span : Span) (ctx : Context) (v : Value) : State :=
  match current with
  | .positional _ => s.argumentsNext callee (v :: positional) keywords span ctx rest
  | .keyword name _ => s.argumentsNext callee positional (keywords.insert name v) span ctx rest
  | .spread node =>
    match s.world.heap.items? v with
    | some items => s.argumentsNext callee (items.reverse ++ positional) keywords span ctx rest
    | none => s.fail .spreadNotList node.span ctx
  | .spreadKeywords node =>
    match s.world.heap.entries? v with
    | some entries => s.argumentsNext callee positional (keywords.union entries) span ctx rest
    | none => s.fail .spreadNotMap node.span ctx

def applyBinary (s : State) (op : BinaryOp) (left right : Value) (span : Span) (ctx : Context) : State :=
  match (Cells.binary op left right).run s.world.heap with
  | (.ok v, h) => (s.setHeap h).value v
  | (.error f, h) => (s.setHeap h).fail f span ctx

def storeIn (s : State) (container : Value) (outer : Option (Node × Value)) (key value result : Value) (span : Span)
    (ctx : Context) : State :=
  match s.world.heap.setIndex container key value with
  | .error f => s.fail f span ctx
  | .ok (changed, h) =>
    let s := s.setHeap h
    match outer with
    | some (left, outerKey) => s.store left outerKey changed result span ctx
    | none => s.value result

def resumeValue (s : State) (frame : Frame) (v : Value) : State :=
  match frame with
  | .listItem done rest ctx => s.listNext ctx (v :: done) rest
  | .mapKey entries key value rest ctx =>
    match v with
    | .str name => (s.push (.mapValue entries name rest ctx)).eval value ctx
    | v => s.fail (.keyNotString v.tag) key.span ctx
  | .mapValue entries key rest ctx => s.mapNext ctx (entries.insert key v) rest
  | .statement rest ctx => s.blockNext ctx v rest
  | .assign name ctx => (s.assign ctx name v).value v
  | .unpack names span ctx =>
    match s.unpack ctx names v with
    | .ok s => s.value v
    | .error f => s.fail f span ctx
  | .storeKey target value span ctx => (s.push (.storeValue target v span ctx)).eval value ctx
  | .storeValue target key span ctx => s.store target key v v span ctx
  | .storeOuterKey left target key value result span ctx =>
    (s.push (.storeContainer (some (left, v)) key value result span ctx)).eval target ctx
  | .storeContainer outer key value result span ctx => s.storeIn v outer key value result span ctx
  | .logicLeft conjunction right span ctx =>
    match s.world.heap.logical v with
    | .error f => s.fail f span ctx
    | .ok b => if b = conjunction then (s.push (.logicRight span ctx)).eval right ctx else s.value (.bool b)
  | .logicRight span ctx =>
    match s.world.heap.logical v with
    | .error f => s.fail f span ctx
    | .ok b => s.value (.bool b)
  | .binaryLeft op right span ctx => (s.push (.binaryRight op v span ctx)).eval right ctx
  | .binaryRight op left span ctx => s.applyBinary op left v span ctx
  | .unary op span ctx =>
    match s.world.heap.unary op v with
    | .ok w => s.value w
    | .error f => s.fail f span ctx
  | .condition body rest otherwise multiline ctx =>
    if s.world.heap.truthy v then (s.push (.branchBody multiline)).eval body ctx
    else s.branchNext otherwise multiline ctx rest
  | .branchBody multiline => s.value (if multiline then .nil else v)
  | .rangeStart head => (s.push (.rangeStop head v)).eval head.stop head.ctx
  | .rangeStop head start =>
    match head.step with
    | some step => (s.push (.rangeStep head start v)).eval step head.ctx
    | none => s.rangeFirst head start v (.int 1)
  | .rangeStep head start stop => s.rangeFirst head start stop v
  | .rangeBody loop current collected => s.rangeNext loop current (v :: collected)
  | .eachSource loop => s.eachFirst loop v
  | .eachBody loop rest collected => s.eachRound loop (v :: collected) rest
  | .whileCondition loop collected =>
    if s.world.heap.truthy v then
      match s.interruption? with
      | some f => s.fail f loop.span loop.ctx
      | none => (s.push (.whileBody loop collected)).eval loop.body loop.ctx
    else s.loopValue loop.multiline collected
  | .whileBody loop collected => s.whileRound loop (v :: collected)
  | .decorator function span rest name ctx => (s.push (.decorated rest name ctx)).call v [function] [] span ctx
  | .decorated rest name ctx => s.decorateNext v name ctx rest
  | .callee args span ctx => s.argumentsNext v [] [] span ctx args
  | .argument callee positional keywords current rest span ctx =>
    s.addArgument callee positional keywords current rest span ctx v
  | .member name span ctx => s.member v name span ctx
  | .namespaceBody ns _ rest name span ctx => s.namespaceNext ns name span ctx rest
  | .await span ctx =>
    match v with
    | .coroutine id name => s.drive id name span ctx
    | v => s.fail (.notAwaitable v.tag) span ctx
  | .returned => s.finish (.return_ v)
  | .moduleStatement _ rest ctx => s.runStatements ctx v rest
  | .default closure inner name _ rest => (s.assign inner name v).bindParams closure inner rest
  | .functionBody closure _ => s.value (if closure.routine.autoReturn then v else .nil)
  | .gathered done rest span ctx => s.gatherNext (v :: done) span ctx rest
  | .settle span ctx => s.settled v span ctx
  | .caught => s.value (.list [v, .nil])
  | .panicked => s.value (.list [v, .nil, .nil])
  | .cleanup final span ctx =>
    ((s.push (.cleanedUp (.value v))).push (.settle span ctx)).call final [] [] span ctx
  | .cleanedUp result => s.finish result
  | .leaveModule | .memoize _ | .restoreDeadline _ | .threadEnd _ | .jobEnd _ _ => s.value v

def resumeOther (s : State) (frame : Frame) (c : Completion) : State :=
  match frame, c with
  | .rangeBody loop current collected, .continue_ => s.rangeNext loop current collected
  | .rangeBody loop _ collected, .break_ => s.loopValue loop.multiline collected
  | .eachBody loop rest collected, .continue_ => s.eachRound loop collected rest
  | .eachBody loop _ collected, .break_ => s.loopValue loop.multiline collected
  | .whileBody loop collected, .continue_ => s.whileRound loop collected
  | .whileBody loop collected, .break_ => s.loopValue loop.multiline collected
  | .moduleStatement current _ ctx, c => s.asResult c current.span ctx
  | .namespaceBody ns _ _ name span ctx, .return_ _ => s.readMember ns name span ctx
  | .namespaceBody ns current _ _ _ _, c => s.asResult c current.span ns.context
  | .default closure inner name _ rest, .return_ v => (s.assign inner name v).bindParams closure inner rest
  | .default closure _ _ node _, c => s.asResult c node.span closure.context
  | .functionBody closure inner, c => s.asResult c closure.routine.body.span inner
  | .caught, .error f => s.value (.list [.nil, .str f.text])
  | .panicked, .error f => s.value (.list [.nil, .str f.fault.message, .str f.fault.kind.tag])
  | .cleanup final span ctx, c => ((s.push (.cleanedUp c)).push (.settle span ctx)).call final [] [] span ctx
  | _, c => s.pass c

def unwind (s : State) (frame : Frame) (c : Completion) : State :=
  match frame with
  | .functionBody _ _ | .leaveModule => { s with task := { s.task with depth := s.task.depth - 1 } }
  | .restoreDeadline outer => { s with task := { s.task with deadline := outer } }
  | .memoize id => s.setCoroutine id (.done c.result)
  | .threadEnd number =>
    match s.outcome? (.thread number) with
    | some (o, watched) => s.setOutcome (.thread number) (o.send c.result) watched
    | none => s
  | .jobEnd future _ =>
    match s.outcome? (.future future) with
    | some (o, watched) => s.setOutcome (.future future) (o.send c.result) watched
    | none => s
  | _ => s

def resume (s : State) (frame : Frame) (c : Completion) : State :=
  let s := s.unwind frame c
  match frame, c with
  | .jobEnd _ pool, _ => s.nextJob pool
  | frame, .value v => s.resumeValue frame v
  | frame, c => s.resumeOther frame c

def step (s : State) : State :=
  match s.task.control with
  | .eval node ctx => s.evalNode node ctx
  | .call callee args kwargs span ctx => s.enterCall callee args kwargs span ctx
  | .wait w => s.retry w
  | .done c =>
    match s.task.stack with
    | [] => s
    | frame :: rest => ({ s with task := { s.task with stack := rest } }).resume frame c

end State

end ScriptMachine
