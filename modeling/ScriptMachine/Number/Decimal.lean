import ScriptMachine.Number.Read
import ScriptMachine.Number.FloatText
import ScriptMachine.Text.Blank

/-! Exact decimals: fractions written as an integer, as a finite decimal expansion where there is one, and
as a quotient otherwise. -/

namespace ScriptMachine.Number

def splitPower (p n : Nat) : Nat × Nat :=
  if h : 2 ≤ p ∧ 0 < n ∧ n % p = 0 then
    have : n / p < n := Nat.div_lt_self h.2.1 h.1
    let (count, rest) := splitPower p (n / p)
    (count + 1, rest)
  else (0, n)
termination_by n

def expansionPlaces? (den : Nat) : Option Nat :=
  let (twos, rest) := splitPower 2 den
  let (fives, rest) := splitPower 5 rest
  if rest = 1 then some (max twos fives) else none

def decimalChars (q : Rat) : List Char :=
  let sign := if q.num < 0 then ['-'] else []
  let num := decimalDigits q.num.natAbs
  if q.den = 1 then sign ++ num
  else
    match expansionPlaces? q.den with
    | some places => sign ++ placePoint (decimalDigits (q.num.natAbs * tenPow places / q.den)) places
    | none => sign ++ num ++ '/' :: decimalDigits q.den

def decimalText (q : Rat) : String := String.ofList (decimalChars q)

def readBig? (cs : List Char) : Option Int :=
  let (negative, digits) := splitSign cs
  if digits.head? = some '_' then none
  else (readNat? (digits.filter (· ≠ '_'))).map fun n => if negative then -(n : Int) else n

def readDecimalChars? (cs : List Char) : Option Rat :=
  let cs := Text.trim cs
  match splitAt? (· == '/') cs with
  | some (num, den) =>
    match readBig? (Text.trim num), readBig? (Text.trim den) with
    | some n, some d => if d = 0 then none else some (Rat.divInt n d)
    | _, _ => none
  | none => do
    let (mantissa, power) ← match splitAt? (fun c => c == 'e' || c == 'E') cs with
      | none => some (cs, (0 : Int))
      | some (mantissa, exponent) =>
        match readInt? exponent with
        | some power => if -2147483648 ≤ power ∧ power < 2147483648 then some (mantissa, power) else none
        | none => none
    let (negative, body) := splitSign mantissa
    let (digits, places) ← readMantissa? body
    let n : Int := if negative then -digits else digits
    let scale : Int := places - power
    if 0 ≤ scale then some (mkRat n (tenPow scale.toNat))
    else some ((n * tenPow (-scale).toNat : Int) : Rat)

def readDecimal? (text : String) : Option Rat := readDecimalChars? text.toList

end ScriptMachine.Number
