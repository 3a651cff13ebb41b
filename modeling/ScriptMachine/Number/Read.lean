import ScriptMachine.Number.Binary64

/-! Numbers read from text: digits, signed whole numbers in 64 bits, and doubles rounded to nearest. -/

namespace ScriptMachine.Number

def digitValue (c : Char) : Nat := c.toNat - '0'.toNat

def ofDigits (cs : List Char) : Nat := cs.foldl (fun n c => 10 * n + digitValue c) 0

theorem ofDigits_append_singleton (cs : List Char) (c : Char) :
    ofDigits (cs ++ [c]) = 10 * ofDigits cs + digitValue c := by
  simp [ofDigits]

def readNat? (cs : List Char) : Option Nat :=
  if cs.isEmpty || !cs.all Char.isDigit then none else some (ofDigits cs)

def splitSign : List Char → Bool × List Char
  | '-' :: cs => (true, cs)
  | '+' :: cs => (false, cs)
  | cs => (false, cs)

def readInt? (cs : List Char) : Option Int :=
  let (negative, digits) := splitSign cs
  (readNat? digits).map fun n => if negative then -n else n

def wordBound : Nat := 9223372036854775808

def word? (n : Int) : Option Int64 :=
  if -9223372036854775808 ≤ n ∧ n < 9223372036854775808 then some (Int64.ofInt n) else none

theorem word?_toInt (a : Int64) : word? a.toInt = some a := by
  have h1 := a.le_toInt
  have h2 := a.toInt_lt
  simp only [word?]
  rw [if_pos ⟨by simpa using h1, by simpa using h2⟩, Int64.ofInt_toInt]

theorem toInt_of_word? {n : Int} {w : Int64} (h : word? n = some w) : w.toInt = n := by
  simp only [word?, Option.ite_none_right_eq_some, Option.some.injEq] at h
  obtain ⟨⟨hle, hlt⟩, rfl⟩ := h
  exact Int64.toInt_ofInt_of_le hle hlt

def readWord? (cs : List Char) : Option Int64 := (readInt? cs).bind word?

def splitAt? (p : Char → Bool) (cs : List Char) : Option (List Char × List Char) :=
  match cs.dropWhile (fun c => !p c) with
  | [] => none
  | _ :: rest => some (cs.takeWhile (fun c => !p c), rest)

def nearestDecimal (negative : Bool) (digits : Nat) (scale : Int) : Float :=
  if digits = 0 then floatOfBits negative 0
  else if 400 < scale then infinity negative
  else if scale < -((digits.log2 : Int) + 400) then floatOfBits negative 0
  else if 0 ≤ scale then nearest negative (digits * tenPow scale.toNat) 1
  else nearest negative digits (tenPow (-scale).toNat)

def readMantissa? (cs : List Char) : Option (Nat × Nat) :=
  let (whole, fraction) := (splitAt? (· == '.') cs).getD (cs, [])
  if (whole.isEmpty && fraction.isEmpty) || !whole.all Char.isDigit || !fraction.all Char.isDigit then none
  else some (ofDigits (whole ++ fraction), fraction.length)

/-- A decimal number with an optional sign, point and exponent, or one of the words for NaN and infinity
in any case. -/
def readFloat? (cs : List Char) : Option Float :=
  let (negative, body) := splitSign cs
  let word := String.ofList (body.map Char.toLower)
  if word = "nan" then some notANumber
  else if word = "inf" ∨ word = "infinity" then some (infinity negative)
  else
    match splitAt? (fun c => c == 'e' || c == 'E') body with
    | none => (readMantissa? body).map fun (digits, places) => nearestDecimal negative digits (-places)
    | some (mantissa, exponent) =>
      match readMantissa? mantissa, readInt? exponent with
      | some (digits, places), some power => some (nearestDecimal negative digits (power - places))
      | _, _ => none

end ScriptMachine.Number
