namespace ScriptLang

def Double.leadingBit : Nat := Nat.pow 2 52

/-- The significand and the exponent of a number are in range, and the exponent is the least
possible. -/
def Double.Canonical (significand : Nat) (exponent : Int) : Prop :=
  significand < 2 * leadingBit ∧ -1074 ≤ exponent ∧ exponent ≤ 971 ∧
    (leadingBit ≤ significand ∨ exponent = -1074)

instance (significand : Nat) (exponent : Int) : Decidable (Double.Canonical significand exponent) :=
  inferInstanceAs (Decidable (_ ∧ _ ∧ _ ∧ _))

/-- A finite number stands for `significand * 2 ^ exponent`, negated if `negative` is set. -/
inductive Double where
  | nan
  | infinity (negative : Bool)
  | finite (negative : Bool) (significand : Nat) (exponent : Int)
      (canonical : Double.Canonical significand exponent)
  deriving DecidableEq

namespace Double

/-- The number with these parts; parts out of range stand for an overflow. -/
def ofParts (negative : Bool) (significand : Nat) (exponent : Int) : Double :=
  if h : Canonical significand exponent then .finite negative significand exponent h
  else .infinity negative

def zero (negative : Bool) : Double :=
  .finite negative 0 (-1074) (by decide)

instance : Inhabited Double := ⟨zero false⟩

/-- The natural number nearest to a quotient; a half goes to the even neighbour. -/
def roundQuotient (num den : Nat) : Nat :=
  let below := num / den
  let twice := 2 * (num % den)
  if twice < den then below
  else if den < twice then below + 1
  else if below % 2 = 0 then below
  else below + 1

/-- The pair `(a, b)` of naturals with `a / b = base ^ exponent`. -/
def powRatio (base : Nat) (exponent : Int) : Nat × Nat :=
  if 0 ≤ exponent then (Nat.pow base exponent.toNat, 1) else (1, Nat.pow base (-exponent).toNat)

def powLe (base : Nat) (exponent : Int) (num den : Nat) : Bool :=
  let (a, b) := powRatio base exponent
  a * den ≤ num * b

/-- The greatest `k` with `2 ^ k ≤ num / den`, for positive `num` and `den`. -/
def floorLog2 (num den : Nat) : Int :=
  -- both logarithms are rounded down, so their difference is right or one too great
  let k : Int := (num.log2 : Int) - (den.log2 : Int)
  if powLe 2 k num den then k else k - 1

/-- The number nearest to `num / den`; a tie goes to the even significand. -/
def ofRatio (negative : Bool) (num den : Nat) : Double :=
  if num = 0 then zero negative
  else
    let exponent := max (-1074) (floorLog2 num den - 52)
    let (a, b) := powRatio 2 exponent
    let significand := roundQuotient (num * b) (den * a)
    -- rounding up may come to the next power of two
    if significand = 2 * leadingBit then ofParts negative leadingBit (exponent + 1)
    else ofParts negative significand exponent

def toInt? : Double → Option Int
  | .finite negative significand exponent _ =>
    let (a, b) := powRatio 2 exponent
    if significand * a % b = 0 then
      let magnitude : Int := (significand * a / b : Nat)
      some (if negative then -magnitude else magnitude)
    else none
  | _ => none

end Double

end ScriptLang
