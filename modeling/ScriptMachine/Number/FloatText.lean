import ScriptMachine.Number.Shortest

/-! The text of a double. The digits are the fewest that read back; a format says how the numbers that are
not finite are spelled, what marks a whole number, and where powers of ten are written out. -/

namespace ScriptMachine.Number

structure FloatFormat where
  nan : String
  infinite : String
  wholeMark : String
  marksInfinite : Bool
  /-- Whether a value whose first digit stands at this power of ten is written with an exponent. -/
  scientific : Int → Bool

def FloatFormat.value : FloatFormat := ⟨"nan", "inf", ".0", false, fun _ => false⟩

def FloatFormat.plain : FloatFormat := ⟨"NaN", "inf", "", false, fun _ => false⟩

def FloatFormat.source : FloatFormat := ⟨"NaN", "inf", ".0", true, fun _ => false⟩

def FloatFormat.listing : FloatFormat := ⟨"NaN", "inf", ".0", false, fun p => decide (16 ≤ p ∨ p < -4)⟩

def decimalDigits (n : Nat) : List Char := Nat.toDigits 10 n

def placePoint (digits : List Char) (places : Nat) : List Char :=
  let padded := List.replicate (places + 1 - digits.length) '0' ++ digits
  padded.take (padded.length - places) ++ '.' :: padded.drop (padded.length - places)

def positional (s : Scaled) (wholeMark : List Char) : List Char :=
  if 0 ≤ s.scale then decimalDigits s.digits ++ List.replicate s.scale.toNat '0' ++ wholeMark
  else placePoint (decimalDigits s.digits) (-s.scale).toNat

def exponential (s : Scaled) : List Char :=
  let digits := decimalDigits s.digits
  let power := s.scale + digits.length - 1
  let rest := digits.drop 1
  digits.take 1 ++ (if rest.isEmpty then [] else '.' :: rest) ++ 'e' :: (toString power).toList

def FloatFormat.text (f : FloatFormat) (x : Float) : String :=
  match Binary64.ofFloat x with
  | .nan => f.nan
  | .infinite negative => (if negative then "-" else "") ++ f.infinite ++ (if f.marksInfinite then f.wholeMark else "")
  | .finite negative significand exponent =>
    let s := shortest significand exponent
    let power := s.scale + (decimalDigits s.digits).length - 1
    let body := if s.digits ≠ 0 ∧ f.scientific power then exponential s else positional s f.wholeMark.toList
    (if negative then "-" else "") ++ String.ofList body

end ScriptMachine.Number
