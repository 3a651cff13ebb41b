import ScriptMachine.Builtin
import ScriptMachine.Context
import ScriptMachine.Dict
import ScriptMachine.Files.Path
import ScriptMachine.Syntax

/-! The values of the language. Plain lists and hashmaps are values like any other; shared ones are numbers of
cells. -/

namespace ScriptMachine

structure Routine where
  params : List Param
  body : Node
  autoReturn : Bool
  isAsync : Bool

structure Closure where
  name : String
  routine : Routine
  context : Context

structure Namespace where
  name : String
  body : List Node
  context : Context

inductive Value where
  | nil
  | bool (b : Bool)
  | int (n : Int64)
  | float (x : Float)
  | decimal (q : Rat)
  | str (s : String)
  | bytes (bs : List UInt8)
  | list (items : List Value)
  | map (entries : List (String × Value))
  | sharedList (cell : Nat)
  | sharedMap (cell : Nat)
  | function (id : Nat) (closure : Closure)
  | builtin (b : Builtin)
  | coroutine (id : Nat) (name : String)
  | namespace_ (id : Nat) (ns : Namespace)
  | channel (id : Nat)
  | coChannel (id : Nat)
  | thread (number : Nat)
  | pool (id workers : Nat)
  | future (id : Nat)
  | file (name : String) (path : Path)

instance : Inhabited Value := ⟨.nil⟩

inductive TypeTag where
  | nil | bool | int | float | cfloat | str | bytes | list | hashmap | func | coroutine | namespace_
  | channel | coChannel | thread | threadPool | future | file
deriving DecidableEq, Repr

namespace TypeTag

def text : TypeTag → String
  | nil => "<none>"
  | bool => "<bool>"
  | int => "<int>"
  | float => "<float>"
  | cfloat => "<cfloat>"
  | str => "<str>"
  | bytes => "<bytes>"
  | list => "<list>"
  | hashmap => "<hashmap>"
  | func => "<func>"
  | coroutine => "<coroutine>"
  | namespace_ => "<namespace>"
  | channel => "<channel>"
  | coChannel => "<co-channel>"
  | thread => "<thread>"
  | threadPool => "<thread-pool>"
  | future => "<future>"
  | file => "<File>"

def named : List (String × TypeTag) :=
  [("list", list), ("str", str), ("int", int), ("float", float), ("func", func), ("bool", bool),
    ("hashmap", hashmap), ("bytes", bytes), ("none_type", nil), ("cfloat", cfloat), ("thread", thread),
    ("channel_type", channel), ("co_channel_type", coChannel), ("thread_pool_type", threadPool),
    ("future_type", future), ("coroutine_type", coroutine), ("namespace_type", namespace_), ("file_type", file)]

end TypeTag

namespace Value

def tag : Value → TypeTag
  | nil => .nil
  | bool _ => .bool
  | int _ => .int
  | float _ => .float
  | decimal _ => .cfloat
  | str _ => .str
  | bytes _ => .bytes
  | list _ | sharedList _ => .list
  | map _ | sharedMap _ => .hashmap
  | function _ _ | builtin _ => .func
  | coroutine _ _ => .coroutine
  | namespace_ _ _ => .namespace_
  | channel _ => .channel
  | coChannel _ => .coChannel
  | thread _ => .thread
  | pool _ _ => .threadPool
  | future _ => .future
  | file _ _ => .file

def isCallable : Value → Bool
  | function _ _ | builtin _ => true
  | _ => false

def isNil : Value → Bool
  | nil => true
  | _ => false

def isShared : Value → Bool
  | sharedList _ | sharedMap _ => true
  | _ => false

end Value

end ScriptMachine
