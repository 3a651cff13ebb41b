import ScriptMachine.Machine.Concurrency

namespace ScriptMachine

namespace State

def guarded (s : State) (inv : Invocation) (frame : Frame) (first : Nat) : Except Fault State := do
  let callee ← inv.callable 0
  let args ← inv.items s.world.heap first
  let kwargs ← inv.entries s.world.heap (first + 1)
  return ((s.push frame).push (.settle inv.span inv.ctx)).call callee args kwargs inv.span inv.ctx

def finallyCall (s : State) (inv : Invocation) : Except Fault State := do
  let _ ← inv.callable 0
  let final ← inv.callable 1
  s.guarded inv (.cleanup final inv.span inv.ctx) 2

def sleep (s : State) (inv : Invocation) : Except Fault State := do
  let x ← inv.number 0
  match Number.nanosOfSeconds? x with
  | some limit => return s.wait (.moment (s.after limit) inv.span inv.ctx)
  | none => .error (.invalidSeconds x)

def clockStart : Nat := 1700000000

def timeNow (s : State) : State :=
  s.value (.float (Number.secondsOfNanos (clockStart * Number.nanosPerSecond + s.task.clock)))

def asyncSleep (s : State) (inv : Invocation) : Except Fault State := do
  let limit ← inv.seconds 0
  let (c, s) := s.newCoroutine inv.builtin.name (.timer (s.after limit))
  return s.value c

def isCoroutine : Value → Bool
  | .coroutine _ _ => true
  | _ => false

def gather (s : State) (inv : Invocation) : Except Fault State := do
  let members ← inv.items s.world.heap 0
  if members.all isCoroutine then return s.gatherNext [] inv.span inv.ctx members
  else inv.wrong 0 "a list of coroutines"

def timeout (s : State) (inv : Invocation) : Except Fault State := do
  let (id, name) ← inv.coroutine 0
  let limit ← inv.seconds 1
  return (s.withDeadline limit).drive id name inv.span inv.ctx

def cancel (s : State) (inv : Invocation) : Except Fault State := do
  let number ← inv.thread 0
  return ({ s with world := { s.world with
    threads := s.world.threads.modify number ({ · with cancelled := true }) } }).value .nil

def send (s : State) (inv : Invocation) : Except Fault State := do
  let id ← inv.channel 0
  return ({ s with world := { s.world with
    channels := s.world.channels.modify id (· ++ [inv.arg 1]) } }).value .nil

def sendCo (s : State) (inv : Invocation) : Except Fault State := do
  let id ← inv.coChannel 0
  return ({ s with world := { s.world with
    coChannels := s.world.coChannels.modify id (· ++ [inv.arg 1]) } }).value .nil

def isEmptyAt (channels : Array (List Value)) (id : Nat) : Bool := (channels.getD id []).isEmpty

def perform (s : State) (inv : Invocation) : Except Fault State :=
  let h := s.world.heap
  match inv.builtin with
  | .print => .ok ((s.print (h.text (inv.arg 0))).value .nil)
  | .println => .ok ((s.print (h.text (inv.arg 0) ++ "\n")).value .nil)
  | .input => .ok (s.input inv)
  | .type => .ok (s.value (.str (inv.arg 0).tag.text))
  | .len =>
    match Convert.length? h (inv.arg 0) with
    | some n => .ok (s.value (.int (Int64.ofNat n)))
    | none => inv.wrong 0 "a list, string, hashmap or bytes"
  | .isNone => .ok (s.value (.bool (inv.arg 0).isNil))
  | .toStr => .ok (s.value (.str (h.text (inv.arg 0))))
  | .toInt => s.convert inv "int" .int (Convert.toInt? (inv.arg 0))
  | .toFloat => s.convert inv "float" .float (Convert.toFloat? (inv.arg 0))
  | .toDecimal => s.convert inv "cfloat" .decimal (Convert.toDecimal? (inv.arg 0))
  | .toBytes => s.bytesOf inv
  | .fromBytes => s.textOf inv
  | .keys => do return s.value (.list ((← inv.entries h 0).keys.map .str))
  | .values => do return s.value (.list (← inv.entries h 0).values)
  | .append => do return s.withItems (inv.arg 0) ((← inv.items h 0) ++ [inv.arg 1])
  | .extend => do
    let items ← inv.items h 0
    let others ← inv.items h 1
    return s.withItems (inv.arg 0) (items ++ others)
  | .pop => s.pop inv
  | .range => s.range inv
  | .catch_ => s.guarded inv .caught 1
  | .isPanic => s.guarded inv .panicked 1
  | .finally_ => s.finallyCall inv
  | .setReusable => s.setShared inv
  | .sleep => s.sleep inv
  | .timeNow => .ok s.timeNow
  | .asyncSleep => s.asyncSleep inv
  | .gather => s.gather inv
  | .timeout => s.timeout inv
  | .threadStart => s.threadStart inv
  | .threadJoin => do
    let number ← inv.thread 0
    let limit ← inv.seconds? 1
    return s.wait (.turn (.thread number) limit inv.span inv.ctx)
  | .threadIsAlive => do return s.wait (.query (.thread (← inv.thread 0)))
  | .threadCancel => s.cancel inv
  | .threadPoolNew => s.newPool inv
  | .threadPoolSubmit => s.submit inv
  | .threadPoolShutdown => s.shutdown inv
  | .futureResult => do
    let id ← inv.future 0
    let limit ← inv.seconds? 1
    return s.wait (.turn (.future id) limit inv.span inv.ctx)
  | .futureDone => do return s.wait (.query (.future (← inv.future 0)))
  | .channelNew =>
    .ok (({ s with world := { s.world with channels := s.world.channels.push [] } }).value
      (.channel s.world.channels.size))
  | .channelSend => s.send inv
  | .channelReceive => do
    let id ← inv.channel 0
    let limit ← inv.seconds? 1
    return s.wait (.channel id (s.endOf limit))
  | .channelIsEmpty => do return s.value (.bool (isEmptyAt s.world.channels (← inv.channel 0)))
  | .coChannelNew =>
    .ok (({ s with world := { s.world with coChannels := s.world.coChannels.push [] } }).value
      (.coChannel s.world.coChannels.size))
  | .coChannelSend => s.sendCo inv
  | .coChannelReceive => do
    let id ← inv.coChannel 0
    let (c, s) := s.newCoroutine inv.builtin.name (.receive id inv.span inv.ctx)
    return s.value c
  | .coChannelIsEmpty => do return s.value (.bool (isEmptyAt s.world.coChannels (← inv.coChannel 0)))
  | .open_ => s.openFile inv
  | .readFile => do return s.value (← s.readFile (← inv.path 0))
  | .writeFile => do
    let p ← inv.path 0
    let text ← inv.string 1
    s.writeFile p text
  | .fileExists => do return s.value (.bool (s.world.files.exists_ (← inv.path 0)))
  | .readFileAsync => do return s.inBackground inv (s.readFile (← inv.path 0))
  | .writeFileAsync => do
    let p ← inv.path 0
    let text ← inv.string 1
    return s.writeInBackground inv p text

def callBuiltin (s : State) (b : Builtin) (args : List Value) (kwargs : Dict Value) (span : Span) (ctx : Context) :
    State :=
  match b.bind args kwargs with
  | .error f => s.fail f span ctx
  | .ok bound =>
    match s.perform ⟨b, bound, span, ctx⟩ with
    | .error f => s.fail f span ctx
    | .ok s => s

def enterCall (s : State) (callee : Value) (args : List Value) (kwargs : Dict Value) (span : Span) (ctx : Context) :
    State :=
  match callee with
  | .function _ closure => s.callFunction closure args kwargs span ctx
  | .builtin b => s.callBuiltin b args kwargs span ctx
  | v => s.fail (.notCallable v.tag) span ctx

end State

end ScriptMachine
