import ScriptLang.Double.Basic

namespace ScriptLang.Double

structure Decimal where
  coefficient : Nat
  exponent : Int
  deriving DecidableEq

def floorLog10 (num den : Nat) : Int :=
  -- the logarithm of two is just below 0.30103, so the guess is one off at most
  let guess := floorLog2 num den * 30103 / 100000
  if powLe 10 (guess + 1) num den then guess + 1
  else if powLe 10 guess num den then guess
  else guess - 1

/-- The positive numbers that round to `significand * 2 ^ exponent`, in quarters of its last
place. -/
structure Interval where
  low : Nat
  middle : Nat
  high : Nat
  closed : Bool

/-- Below a power of two the neighbours are twice as close, and even significands own their ends. -/
def Interval.around (significand : Nat) (exponent : Int) : Interval where
  low :=
    if significand = leadingBit ∧ -1074 < exponent then 4 * significand - 1
    else 4 * significand - 2
  middle := 4 * significand
  high := 4 * significand + 2
  closed := significand % 2 = 0

/-- The multiple of `step` nearest to the middle that lies inside, in quarters measured as `unit`;
of two equally near ones the even one. -/
def Interval.gridPoint? (i : Interval) (unit step : Nat) : Option Nat :=
  let inside (c : Nat) : Bool :=
    if i.closed then i.low * unit ≤ c * step ∧ c * step ≤ i.high * unit
    else i.low * unit < c * step ∧ c * step < i.high * unit
  let below := i.middle * unit / step
  match inside below, inside (below + 1) with
  | true, true => some (roundQuotient (i.middle * unit) step)
  | true, false => some below
  | false, true => some (below + 1)
  | false, false => none

def Decimal.trim : Nat → Decimal → Decimal
  | 0, d => d
  | n + 1, d =>
    if d.coefficient % 10 = 0 then Decimal.trim n ⟨d.coefficient / 10, d.exponent + 1⟩ else d

/-- The shortest decimal that reads back to the positive number `significand * 2 ^ exponent`;
seventeen digits always suffice. -/
def shortest (significand : Nat) (exponent : Int) : Decimal :=
  let interval := Interval.around significand exponent
  let (a, b) := powRatio 2 (exponent - 2)
  let leading := floorLog10 (interval.middle * a) b
  let onGrid (finer : Nat) : Option Decimal :=
    let place := leading - finer
    let (p, q) := powRatio 10 place
    (interval.gridPoint? (a * q) (p * b)).map fun c => ⟨c, place⟩
  -- from the coarsest grid to the finest
  match (List.range 17).findSome? onGrid with
  | some d => d.trim 18
  | none => ⟨0, 0⟩

end ScriptLang.Double
