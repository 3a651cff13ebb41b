import ScriptMachine.Number.Binary64

namespace ScriptMachine.Number

structure Scaled where
  digits : Nat
  scale : Int
deriving DecidableEq, Repr

structure Interval where
  low : Nat
  value : Nat
  high : Nat
  unit : Nat
  closed : Bool

/-- The rounding interval of `significand · 2 ^ exponent`. Below a power of two the neighbours are closer. -/
def Interval.ofBinary (significand : Nat) (exponent : Int) : Interval :=
  let below := if significand = twoPow 52 ∧ -1074 < exponent then 1 else 2
  let (up, down) :=
    if 2 ≤ exponent then (twoPow (exponent - 2).toNat, 1) else (1, twoPow (2 - exponent).toNat)
  { low := (4 * significand - below) * up
    value := 4 * significand * up
    high := (4 * significand + 2) * up
    unit := down
    closed := significand % 2 == 0 }

def Interval.holds (i : Interval) (n : Nat) : Bool :=
  if i.closed then decide (i.low ≤ n ∧ n ≤ i.high) else decide (i.low < n ∧ n < i.high)

def Interval.rescale (i : Interval) (scale : Int) : Interval :=
  if 0 ≤ scale then { i with unit := i.unit * tenPow scale.toNat }
  else
    let f := tenPow (-scale).toNat
    { i with low := i.low * f, value := i.value * f, high := i.high * f }

/-- The multiple of the unit nearest to the value among its two neighbours inside the interval; of two
equally near ones the larger. -/
def Interval.neighbour? (i : Interval) : Option Nat :=
  let down := i.value / i.unit
  let up := down + 1
  match i.holds (down * i.unit), i.holds (up * i.unit) with
  | true, true => if i.value - down * i.unit < up * i.unit - i.value then some down else some up
  | true, false => some down
  | false, true => some up
  | false, false => none

def searchGrid (i : Interval) (scale : Int) : Nat → Scaled
  | 0 => ⟨0, 0⟩
  | tries + 1 =>
    match (i.rescale scale).neighbour? with
    | some digits => ⟨digits, scale⟩
    | none => searchGrid i (scale - 1) tries

def dropZeros (s : Scaled) : Nat → Scaled
  | 0 => s
  | tries + 1 =>
    if s.digits ≠ 0 ∧ s.digits % 10 = 0 then dropZeros ⟨s.digits / 10, s.scale + 1⟩ tries else s

/-- The fewest digits for the positive number `significand · 2 ^ exponent`. A double needs at most
seventeen, and the first grid tried may be a few powers of ten too coarse. -/
def shortest (significand : Nat) (exponent : Int) : Scaled :=
  if significand = 0 then ⟨0, 0⟩
  else
    let top := ((significand.log2 : Int) + exponent + 1) * 30103 / 100000 + 1
    dropZeros (searchGrid (Interval.ofBinary significand exponent) top 22) 20

end ScriptMachine.Number
