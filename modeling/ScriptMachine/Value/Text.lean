import ScriptMachine.Number.Decimal
import ScriptMachine.Syntax.Printer
import ScriptMachine.Value.Heap

namespace ScriptMachine

def hexDigit (n : Nat) : Char := if n < 10 then Char.ofNat (48 + n) else Char.ofNat (87 + n)

def byteChars (b : UInt8) : List Char :=
  let n := b.toNat
  if n = 34 then ['\\', '"']
  else if n = 92 then ['\\', '\\']
  else if n = 10 then ['\\', 'n']
  else if n = 9 then ['\\', 't']
  else if n = 13 then ['\\', 'r']
  else if 32 ≤ n ∧ n ≤ 126 then [Char.ofNat n]
  else ['\\', 'x', hexDigit (n / 16), hexDigit (n % 16)]

def bytesText (bs : List UInt8) : String := "b\"" ++ String.ofList (bs.flatMap byteChars) ++ "\""

namespace Value

mutual

def shown (quoted : Bool) : Value → String
  | .nil => "none"
  | .bool b => if b then "true" else "false"
  | .int n => toString n.toInt
  | .float x => Number.FloatFormat.value.text x
  | .decimal q => Number.decimalText q
  | .str s => if quoted then Text.quote s else s
  | .bytes bs => bytesText bs
  | .list items => "[" ++ commaList (shownItems items) ++ "]"
  | .map entries => "\x7b" ++ commaList (shownEntries entries) ++ "\x7d"
  | .sharedList _ => "[...]"
  | .sharedMap _ => "\x7b...\x7d"
  | .function _ closure => s!"<function {closure.name}>"
  | .builtin b => s!"<built-in function {b.name}>"
  | .coroutine _ name => s!"<coroutine {name}>"
  | .namespace_ _ ns => s!"<namespace {ns.name}>"
  | .channel _ => "<channel>"
  | .coChannel _ => "<co-channel>"
  | .thread number => s!"<thread #{number + 1}>"
  | .pool _ workers => s!"<thread-pool of {workers}>"
  | .future _ => "<future>"
  | .file name _ => s!"<File {name}>"

def shownItems : List Value → List String
  | [] => []
  | v :: rest => shown true v :: shownItems rest

def shownEntries : List (String × Value) → List String
  | [] => []
  | (key, v) :: rest => (Text.quote key ++ ": " ++ shown true v) :: shownEntries rest

end

end Value

def Heap.text (h : Heap) (v : Value) : String := (h.view v).shown false

def Heap.repr (h : Heap) (v : Value) : String := (h.view v).shown true

end ScriptMachine
