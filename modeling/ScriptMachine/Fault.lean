import ScriptMachine.Files.Fault
import ScriptMachine.Syntax.Printer
import ScriptMachine.Value

namespace ScriptMachine

inductive FaultKind where
  | runtime | math | io | type
deriving DecidableEq, Repr

namespace FaultKind

def name : FaultKind → String
  | runtime => "RuntimeError"
  | math => "MathError"
  | io => "IOError"
  | type => "TypeError"

def tag : FaultKind → String
  | runtime => "RT"
  | math => "M"
  | io => "IO"
  | type => "T"

end FaultKind

inductive Fault where
  -- Operators
  | illegalBinary (op : BinaryOp) (left right : TypeTag)
  | illegalSign (negative : Bool) (operand : TypeTag)
  | noneOperand
  | overflow
  | divisionByZero
  | moduloByZero
  | fractionalPower
  | exponentTooLarge
  | notExact (x : Float)
  | repeatTooLarge (length count : Nat)
  | removeOutOfBounds (index : Int64) (length : Nat)
  | indexOutOfBounds (container : String) (index : Int64) (length : Nat)
  | keyNotFound (key : String) (size : Nat)
  | indexNotInt (container key : TypeTag)
  | listIndexNotInt (key : TypeTag)
  | keyNotString (key : TypeTag)
  | notIndexable (target : TypeTag)
  -- Names and contexts
  | undefined (name : String)
  | usingAtTop
  | noOuterBinding (name : String)
  | notGlobal (name : String)
  -- Statements
  | notIterable (t : TypeTag)
  | boundNotNumber (t : TypeTag)
  | zeroStep
  | unpackNotList
  | unpackCount (expected got : Nat)
  | noMember (t : TypeTag) (name : String)
  | notAMember (name ns : String)
  | notAwaitable (t : TypeTag)
  -- Calls
  | spreadNotList
  | spreadNotMap
  | notCallable (t : TypeTag)
  | tooDeep (limit : Nat)
  | tooManyArguments (function : String) (accepted given : Nat)
  | argumentTwice (function key : String)
  | unexpectedArgument (function key : String)
  | missingArgument (function param : String)
  -- Modules
  | moduleNotFound (path : String) (searched : List String)
  | moduleUnreadable (path : String) (reason : FileFault)
  | moduleInvalid (path kindName headline : String) (line : Nat)
  -- Tasks
  | cancelled
  | timedOut (seconds : Float)
  | alreadyRunning (name : String)
  | poolClosed
  | noWorkers
  | futurePending (seconds : Float)
  | futureAbandoned
  -- Built-in functions
  | wrongArgument (function : String) (index : Nat) (expected : String)
  | invalidSeconds (seconds : Float)
  | notConvertible (repr target : String)
  | notByteList
  | bytesNotText
  | zeroRangeStep
  | inputUnreadable (reason : FileFault)
  | fileUnreadable (path : String) (reason : FileFault)
  | fileUnwritable (path : String) (reason : FileFault)

namespace Fault

def kind : Fault → FaultKind
  | overflow | divisionByZero | moduloByZero | fractionalPower | exponentTooLarge | notExact _ => .math
  | illegalBinary .. | illegalSign .. | noneOperand | indexNotInt .. | listIndexNotInt _ | keyNotString _
  | notIndexable _ | notIterable _ | boundNotNumber _ | unpackNotList | noMember .. | notAwaitable _
  | notCallable _ | wrongArgument .. => .type
  | moduleNotFound .. | moduleUnreadable .. | inputUnreadable _ | fileUnreadable .. | fileUnwritable .. => .io
  | _ => .runtime

def ordinal : Nat → String
  | 0 => "First"
  | 1 => "Second"
  | 2 => "Third"
  | 3 => "Fourth"
  | 4 => "Fifth"
  | 5 => "Sixth"
  | _ => "An"

def message : Fault → String
  | illegalBinary op left right => s!"Illegal operation '{op.symbol}' between '{left.text}' and '{right.text}'"
  | illegalSign true operand => s!"Illegal operation '-' on '{operand.text}'"
  | illegalSign false operand => s!"Illegal operation '+' on '{operand.text}'"
  | noneOperand => "Cannot perform arithmetic or logical operation on 'none'"
  | overflow => "Integer overflow"
  | divisionByZero => "Division by zero"
  | moduloByZero => "Modulo by zero"
  | fractionalPower => "Math domain error: cannot raise a negative number to a fractional power"
  | exponentTooLarge => "Exponent is too large"
  | notExact x => s!"Cannot convert '{Number.FloatFormat.plain.text x}' to an exact decimal"
  | repeatTooLarge length count =>
    s!"Cannot repeat a sequence of length {length} {count} times: the result is too large"
  | removeOutOfBounds index length =>
    s!"Element at index {index.toInt} could not be removed from list of length {length} because " ++
      "index is out of bounds"
  | indexOutOfBounds container index length =>
    s!"Index {index.toInt} is out of bounds for {container} of length {length}"
  | keyNotFound key size => s!"Key {Text.quote key} not found in hashmap of size {size}"
  | indexNotInt container key => s!"Index of '{container.text}' must be an int, got '{key.text}'"
  | listIndexNotInt key => s!"List index must be an int, got '{key.text}'"
  | keyNotString key => s!"Hashmap keys must be strings, got '{key.text}'"
  | notIndexable target => s!"'{target.text}' does not support index assignment"
  | undefined name => s!"'{name}' is not defined"
  | usingAtTop => "'using' cannot be used at the global level"
  | noOuterBinding name => s!"No binding for nonlocal variable '{name}' found"
  | notGlobal name => s!"'{name}' is not defined in the global scope"
  | notIterable t => s!"Cannot iterate over '{t.text}'"
  | boundNotNumber t => s!"'for' loop bounds must be numbers, got '{t.text}'"
  | zeroStep => "Step value for a 'for' loop cannot be zero"
  | unpackNotList => "Value to unpack must be a list"
  | unpackCount expected got =>
    let problem := if got < expected then "Not enough" else "Too many"
    s!"{problem} values to unpack (expected {expected}, got {got})"
  | noMember t name => s!"'{t.text}' has no member '{name}'"
  | notAMember name ns => s!"'{name}' is not a member of namespace '{ns}'"
  | notAwaitable t => s!"Cannot await '{t.text}'"
  | spreadNotList => "Can only unpack a list with '*'"
  | spreadNotMap => "Can only unpack a hashmap with '**'"
  | notCallable t => s!"'{t.text}' is not callable"
  | tooDeep limit => s!"Maximum recursion depth exceeded ({limit})"
  | tooManyArguments function accepted given =>
    s!"'{function}' got too many positional arguments (expected at most {accepted}, got {given})"
  | argumentTwice function key => s!"'{function}' got multiple values for argument '{key}'"
  | unexpectedArgument function key => s!"'{function}' got an unexpected keyword argument '{key}'"
  | missingArgument function param => s!"'{function}' missing required argument '{param}'"
  | moduleNotFound path searched => s!"Module '{path}' not found (searched {commaList searched})"
  | moduleUnreadable path reason => s!"Failed to read module '{path}': {reason.text}"
  | moduleInvalid path kindName headline line =>
    s!"Failed to load module '{path}': {kindName}: {headline} (line {line})"
  | cancelled => "Thread was cancelled"
  | timedOut seconds => s!"Coroutine timed out after {Number.FloatFormat.plain.text seconds} seconds"
  | alreadyRunning name => s!"Coroutine '{name}' is already running"
  | poolClosed => "Cannot submit work to a thread pool that was shut down"
  | noWorkers => "Thread pool needs at least one worker"
  | futurePending seconds => s!"Future did not complete within {Number.FloatFormat.plain.text seconds} seconds"
  | futureAbandoned => "Future was abandoned before it completed"
  | wrongArgument function index expected => s!"{ordinal index} argument of '{function}' must be {expected}"
  | invalidSeconds seconds => s!"Invalid number of seconds: {Number.FloatFormat.plain.text seconds}"
  | notConvertible repr target => s!"Cannot convert {repr} to {target}"
  | notByteList => "List elements must be ints between 0 and 255"
  | bytesNotText => "Bytes are not valid UTF-8"
  | zeroRangeStep => "Step value for 'range' cannot be zero"
  | inputUnreadable reason => s!"Failed to read from stdin: {reason.text}"
  | fileUnreadable path reason => s!"Failed to read file '{path}': {reason.text}"
  | fileUnwritable path reason => s!"Failed to write file '{path}': {reason.text}"

end Fault

/-- Why a run fails: a fault, or a signal that no loop has taken. -/
inductive Reason where
  | of (f : Fault)
  | strayBreak
  | strayContinue

namespace Reason

def kind : Reason → FaultKind
  | of f => f.kind
  | strayBreak | strayContinue => .runtime

def message : Reason → String
  | of f => f.message
  | strayBreak => "'break' outside of a loop"
  | strayContinue => "'continue' outside of a loop"

end Reason

structure Failure where
  fault : Reason
  sites : List Site

def Reason.at_ (r : Reason) (span : Span) (c : Context) : Failure := ⟨r, c.sites span⟩

def Fault.at_ (f : Fault) (span : Span) (c : Context) : Failure := (Reason.of f).at_ span c

def headline (kind : FaultKind) (message : String) : String := s!"{kind.name}: {message}"

def Failure.text (f : Failure) : String := headline f.fault.kind f.fault.message

end ScriptMachine
