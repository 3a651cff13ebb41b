/-! Doubles as exact numbers: a sign, a whole significand and a power of two; the nearest double to a
fraction, with a tie going to the even significand; the remainder and the whole part, computed exactly. -/

namespace ScriptMachine.Number

def twoPow (n : Nat) : Nat := Nat.pow 2 n

def tenPow (n : Nat) : Nat := Nat.pow 10 n

inductive Binary64 where
  | nan
  | infinite (negative : Bool)
  | finite (negative : Bool) (significand : Nat) (exponent : Int)
deriving DecidableEq

def Binary64.ofFloat (x : Float) : Binary64 :=
  let bits : Nat := x.toBits.toNat
  let negative := decide (twoPow 63 ≤ bits)
  let exponent : Nat := bits / twoPow 52 % 2048
  let fraction : Nat := bits % twoPow 52
  if exponent = 2047 then if fraction = 0 then .infinite negative else .nan
  else if exponent = 0 then .finite negative fraction (-1074)
  else .finite negative (fraction + twoPow 52) ((exponent : Int) - 1075)

def floatOfBits (negative : Bool) (bits : Nat) : Float :=
  Float.ofBits (UInt64.ofNat (if negative then bits + twoPow 63 else bits))

def infinity (negative : Bool) : Float := floatOfBits negative (2047 * twoPow 52)

def notANumber : Float := floatOfBits false (2047 * twoPow 52 + twoPow 51)

def roundHalfEven (num den : Nat) : Nat :=
  let quotient := num / den
  let twice := 2 * (num % den)
  if den < twice ∨ (twice = den ∧ quotient % 2 = 1) then quotient + 1 else quotient

def scaleDown (num den : Nat) (exponent : Int) : Nat × Nat :=
  if 0 ≤ exponent then (num, den * twoPow exponent.toNat) else (num * twoPow (-exponent).toNat, den)

def assemble (negative : Bool) (significand : Nat) (exponent : Int) : Float :=
  let (significand, exponent) := if significand = twoPow 53 then (twoPow 52, exponent + 1) else (significand, exponent)
  if 971 < exponent then infinity negative
  else if significand < twoPow 52 then floatOfBits negative significand
  else floatOfBits negative ((exponent + 1075).toNat * twoPow 52 + (significand - twoPow 52))

def nearest (negative : Bool) (num den : Nat) : Float :=
  if num = 0 then floatOfBits negative 0
  else
    let guess : Int := (num.log2 : Int) - den.log2 - 52
    let (n, d) := scaleDown num den guess
    let exponent := max (if n < d * twoPow 52 then guess - 1 else guess) (-1074)
    let (n, d) := scaleDown num den exponent
    assemble negative (roundHalfEven n d) exponent

def floatOfRat (q : Rat) : Float := nearest (decide (q < 0)) q.num.natAbs q.den

def ratOfScaled (negative : Bool) (significand : Nat) (exponent : Int) : Rat :=
  let n : Int := if negative then -significand else significand
  if 0 ≤ exponent then ((n * twoPow exponent.toNat : Int) : Rat) else mkRat n (twoPow (-exponent).toNat)

def ratOfFloat? (x : Float) : Option Rat :=
  match Binary64.ofFloat x with
  | .finite negative significand exponent => some (ratOfScaled negative significand exponent)
  | _ => none

def wholePart? (x : Float) : Option Int :=
  match Binary64.ofFloat x with
  | .finite negative significand exponent =>
    let size := if 0 ≤ exponent then significand * twoPow exponent.toNat else significand / twoPow (-exponent).toNat
    some (if negative then -size else size)
  | _ => none

def remainder (x y : Float) : Float :=
  match Binary64.ofFloat x, Binary64.ofFloat y with
  | .finite negative m e, .finite _ n f =>
    if n = 0 then notANumber
    else
      let base := min e f
      let rest := (m * twoPow (e - base).toNat) % (n * twoPow (f - base).toNat)
      if 0 ≤ base then nearest negative (rest * twoPow base.toNat) 1
      else nearest negative rest (twoPow (-base).toNat)
  | .finite .., .infinite _ => x
  | _, _ => notANumber

def isNaN (x : Float) : Bool := x != x

def hasFraction (x : Float) : Bool :=
  match Binary64.ofFloat x with
  | .finite _ m e => decide (e < 0) && m % twoPow (-e).toNat != 0
  | _ => true

end ScriptMachine.Number
