import ScriptMachine.Arguments

/-! The parameters of built-in functions, and the names that every program finds bound. -/

namespace ScriptMachine

namespace Builtin

def required (name : String) : String × Option Value := (name, none)

def optional (name : String) (default : Value) : String × Option Value := (name, some default)

def passedOn : List (String × Option Value) := [optional "args" (.list []), optional "kwargs" (.map [])]

def params : Builtin → List (String × Option Value)
  | print | println => [optional "value" (.str "")]
  | input => [optional "prompt" (.str "")]
  | type | len | isNone | toStr | toInt | toFloat | toDecimal | toBytes | fromBytes => [required "value"]
  | keys | values => [required "map"]
  | append => [required "list", required "value"]
  | extend => [required "list", required "other"]
  | pop => [required "list", optional "index" (.int (-1))]
  | range => [required "start", optional "end" .nil, optional "step" (.int 1)]
  | catch_ | isPanic | threadStart => required "func" :: passedOn
  | finally_ => required "func" :: required "final_func" :: passedOn
  | setReusable => [required "value", optional "flag" (.bool true)]
  | sleep | asyncSleep => [required "seconds"]
  | timeNow | channelNew | coChannelNew => []
  | gather => [required "coroutines"]
  | timeout => [required "coroutine", required "seconds"]
  | threadJoin => [required "thread", optional "timeout" (.int 15)]
  | threadIsAlive | threadCancel => [required "thread"]
  | threadPoolNew => [optional "max_workers" (.int 5)]
  | threadPoolSubmit => required "pool" :: required "func" :: passedOn
  | threadPoolShutdown => [required "pool", optional "wait" (.bool true)]
  | futureResult => [required "future", optional "timeout" .nil]
  | futureDone => [required "future"]
  | channelSend | coChannelSend => [required "channel", required "value"]
  | channelReceive => [required "channel", optional "timeout" .nil]
  | channelIsEmpty | coChannelReceive | coChannelIsEmpty => [required "channel"]
  | open_ | fileExists => [required "path"]
  | readFile | readFileAsync => [required "file"]
  | writeFile | writeFileAsync => [required "file", required "text"]

def bind (b : Builtin) (args : List Value) (kwargs : Dict Value) : Except Fault (List Value) := do
  let slots := b.params.map fun (name, default) => (name, if default.isSome then Slot.optional else .required)
  let bound ← bindArguments b.name slots args kwargs
  return bound.zipWith (fun v param => v.getD (param.2.getD .nil)) b.params

end Builtin

def initialGlobals (argv : List String) : Dict Value :=
  Dict.ofList <|
    Builtin.all.map (fun b => (b.name, Value.builtin b)) ++
    TypeTag.named.map (fun (name, tag) => (name, Value.str tag.text)) ++
    [("none", .nil), ("true", .bool true), ("false", .bool false), ("nan", .float Number.notANumber),
      ("inf", .float (Number.infinity false)), ("neg_inf", .float (Number.infinity true)),
      ("PI", .float 3.141592653589793), ("E", .float 2.718281828459045), ("argv", .list (argv.map .str))]

def boundNames (globals : Dict Value) : List String :=
  (globals.filter fun (name, v) => v.isCallable || TypeTag.named.any (·.1 == name)).map (·.1)

end ScriptMachine
