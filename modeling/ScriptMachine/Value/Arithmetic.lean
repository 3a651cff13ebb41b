import ScriptMachine.Number.Word
import ScriptMachine.Value.Order

namespace ScriptMachine

namespace Value

def ofChecked : Option Int64 → Except Fault Value
  | some w => .ok (.int w)
  | none => .error .overflow

def ofExact (n : Int) : Except Fault Value := ofChecked (Number.word? n)

def floorDivInts (a b : Int64) : Option (Except Fault Value) :=
  match Number.Word.div? a b with
  | some quotient => (Number.Word.roundDown? quotient a b).map fun w => .ok (.int w)
  | none => some (.error .overflow)

/-- A power with an exponent of zero or more. The bases 0, 1 and -1 take any exponent, all others only one that is below
`2 ^ 32`. -/
def intPower (a b : Int64) : Option (Except Fault Value) :=
  if a = 0 ∨ a = 1 then some (.ok (.int (if b = 0 then 1 else a)))
  else if a = -1 then (Number.Word.rem? b 2).map fun parity => .ok (.int (if parity = 0 then 1 else -1))
  else some (ofChecked (if b.toInt < 4294967296 then Number.Word.pow? a b.toInt.toNat else none))

def operateInts? (op : BinaryOp) (a b : Int64) : Option (Except Fault Value) :=
  match op with
  | .add => some (ofChecked (Number.Word.add? a b))
  | .sub => some (ofChecked (Number.Word.sub? a b))
  | .mul => some (ofChecked (Number.Word.mul? a b))
  | .div => if b = 0 then some (.error .divisionByZero) else some (.ok (.float (a.toFloat / b.toFloat)))
  | .floorDiv => if b = 0 then some (.error .divisionByZero) else floorDivInts a b
  | .mod =>
    if b = 0 then some (.error .moduloByZero)
    else if b = -1 then some (.ok (.int 0))
    else (Number.Word.floorRem? a b).map fun w => .ok (.int w)
  | .pow =>
    if 0 ≤ b then intPower a b
    else if a = 0 then some (.error .divisionByZero)
    else some (.ok (.float (a.toFloat.pow b.toFloat)))
  | op => some (.error (.illegalBinary op .int .int))

inductive IntOutcome (op : BinaryOp) : Except Fault Value → Prop where
  | int (w : Int64) : IntOutcome op (.ok (.int w))
  | float (x : Float) : IntOutcome op (.ok (.float x))
  | overflow : IntOutcome op (.error .overflow)
  | divisionByZero : IntOutcome op (.error .divisionByZero)
  | moduloByZero : IntOutcome op (.error .moduloByZero)
  | illegal : IntOutcome op (.error (.illegalBinary op .int .int))

theorem IntOutcome.ofChecked {op : BinaryOp} (w : Option Int64) : IntOutcome op (ofChecked w) := by
  cases w with
  | some w => exact .int w
  | none => exact .overflow

theorem outcome_floorDivInts (op : BinaryOp) (a b : Int64) : ∃ r, floorDivInts a b = some r ∧ IntOutcome op r := by
  rw [floorDivInts]
  split
  · rename_i quotient hquotient
    obtain ⟨w, hw, -⟩ := Number.Word.roundDown?_of_div? hquotient
    rw [hw]
    exact ⟨_, rfl, .int w⟩
  · exact ⟨_, rfl, .overflow⟩

theorem outcome_intPower (op : BinaryOp) (a b : Int64) : ∃ r, intPower a b = some r ∧ IntOutcome op r := by
  have hparity : Number.Word.rem? b 2 = some (b % 2) := if_pos (Number.Word.divides_of_ne (by decide) (by decide))
  rw [intPower, hparity]
  split
  · exact ⟨_, rfl, .int _⟩
  · split
    · exact ⟨_, rfl, .int _⟩
    · exact ⟨_, rfl, .ofChecked _⟩

theorem outcome_operateInts? (op : BinaryOp) (a b : Int64) : ∃ r, operateInts? op a b = some r ∧ IntOutcome op r := by
  cases op with
  | add | sub | mul => exact ⟨_, rfl, .ofChecked _⟩
  | div =>
    rw [operateInts?]
    split
    · exact ⟨_, rfl, .divisionByZero⟩
    · exact ⟨_, rfl, .float _⟩
  | floorDiv =>
    rw [operateInts?]
    split
    · exact ⟨_, rfl, .divisionByZero⟩
    · exact outcome_floorDivInts _ a b
  | mod =>
    rw [operateInts?]
    split
    · exact ⟨_, rfl, .moduloByZero⟩
    · split
      · exact ⟨_, rfl, .int 0⟩
      · rename_i hzero hone
        obtain ⟨w, hw, -⟩ := Number.Word.floorRem?_of_divides (Number.Word.divides_of_ne (a := a) hzero hone)
        rw [hw]
        exact ⟨_, rfl, .int w⟩
  | pow =>
    rw [operateInts?]
    split
    · exact outcome_intPower _ a b
    · split
      · exact ⟨_, rfl, .divisionByZero⟩
      · exact ⟨_, rfl, .float _⟩
  | _ => exact ⟨_, rfl, .illegal⟩

theorem isSome_operateInts? (op : BinaryOp) (a b : Int64) : (operateInts? op a b).isSome = true := by
  obtain ⟨r, hr, -⟩ := outcome_operateInts? op a b
  rw [hr]
  rfl

def arithmeticInts (op : BinaryOp) (a b : Int64) : Except Fault Value :=
  (operateInts? op a b).get (isSome_operateInts? op a b)

theorem operateInts?_eq (op : BinaryOp) (a b : Int64) : operateInts? op a b = some (arithmeticInts op a b) :=
  (Option.some_get _).symm

theorem outcome_arithmeticInts (op : BinaryOp) (a b : Int64) : IntOutcome op (arithmeticInts op a b) := by
  obtain ⟨r, hr, houtcome⟩ := outcome_operateInts? op a b
  rw [operateInts?_eq] at hr
  exact Option.some.inj hr ▸ houtcome

def arithmeticFloats (op : BinaryOp) (x y : Float) : Except Fault Value :=
  match op with
  | .add => .ok (.float (x + y))
  | .sub => .ok (.float (x - y))
  | .mul => .ok (.float (x * y))
  | .div => if y == 0 then .error .divisionByZero else .ok (.float (x / y))
  | .floorDiv => if y == 0 then .error .divisionByZero else .ok (.float (x / y).floor)
  | .mod =>
    if y == 0 then .error .moduloByZero else
      let rest := Number.remainder x y
      if rest != 0 && (decide (rest < 0) != decide (y < 0)) then .ok (.float (rest + y)) else .ok (.float rest)
  | .pow =>
    if x < 0 && Number.hasFraction y then .error .fractionalPower
    else if x == 0 && y < 0 then .error .divisionByZero
    else .ok (.float (x.pow y))
  | op => .error (.illegalBinary op .float .float)

def powerOfRat (q : Rat) (n : Int) : Rat := if 0 ≤ n then Rat.pow q n.toNat else Rat.inv (Rat.pow q (-n).toNat)

def fitsExponent (n : Int) : Bool := decide (-2147483648 ≤ n ∧ n < 2147483648)

def decimalPower (p q : Rat) : Except Fault Value :=
  if q.den = 1 then
    if !fitsExponent q.num then .error .exponentTooLarge
    else if p = 0 ∧ q.num < 0 then .error .divisionByZero
    else .ok (.decimal (powerOfRat p q.num))
  else
    let base := Number.floatOfRat p
    if base < 0 then .error .fractionalPower
    else (exactFloat (base.pow (Number.floatOfRat q))).map .decimal

def arithmeticDecimals (op : BinaryOp) (p q : Rat) : Except Fault Value :=
  match op with
  | .add => .ok (.decimal (p + q))
  | .sub => .ok (.decimal (p - q))
  | .mul => .ok (.decimal (p * q))
  | .div => if q = 0 then .error .divisionByZero else .ok (.decimal (p / q))
  | .floorDiv =>
    if q = 0 then .error .divisionByZero else
      let quotient := (p / q).floor
      match Number.word? quotient with
      | some w => .ok (.int w)
      | none => .ok (.decimal quotient)
  | .mod => if q = 0 then .error .moduloByZero else .ok (.decimal (p - q * (p / q).floor))
  | .pow => decimalPower p q
  | op => .error (.illegalBinary op .cfloat .cfloat)

def arithmetic (op : BinaryOp) (a b : Value) : Except Fault Value :=
  if a.isNil || b.isNil then .error .noneOperand else
    match promote a b with
    | .error fault => .error fault
    | .ok none => .error (.illegalBinary op a.tag b.tag)
    | .ok (some (.ints m n)) => arithmeticInts op m n
    | .ok (some (.floats x y)) => arithmeticFloats op x y
    | .ok (some (.decimals p q)) => arithmeticDecimals op p q

def negate : Value → Except Fault Value
  | .int n => ofExact (-n.toInt)
  | .float x => .ok (.float (-x))
  | .decimal q => .ok (.decimal (-q))
  | .nil => .error .noneOperand
  | v => .error (.illegalSign true v.tag)

def posit : Value → Except Fault Value
  | .nil => .error .noneOperand
  | v =>
    match v with
    | .int _ | .float _ | .decimal _ => .ok v
    | _ => .error (.illegalSign false v.tag)

end Value

end ScriptMachine
