import ScriptMachine.Number.Binary64

namespace ScriptMachine.Number

def nanosPerSecond : Nat := 1000000000

/-- The nearest number of nanoseconds, a half going to the even one. Nothing and less than nothing take no
time; 64 bits must hold the whole seconds. -/
def nanosOfSeconds? (x : Float) : Option Nat :=
  if isNaN x || x ≤ 0 then some 0 else
    match ratOfFloat? x with
    | none => none
    | some q =>
      let n := roundHalfEven (q.num.natAbs * nanosPerSecond) q.den
      if n / nanosPerSecond < 18446744073709551616 then some n else none

def secondsOfNanos (n : Nat) : Float :=
  (n / nanosPerSecond).toUInt64.toFloat + (n % nanosPerSecond).toUInt64.toFloat / 1e9

end ScriptMachine.Number
