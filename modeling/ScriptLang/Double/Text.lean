import ScriptLang.Double.Shortest

namespace ScriptLang.Double

structure Layout where
  /-- The least exponent of the first digit that is written positionally. -/
  leastPositional : Int
  /-- The greatest exponent of the first digit that is written positionally. -/
  greatestPositional : Int
  /-- What a number without a fraction ends in. -/
  wholeEnding : String
  exponentMark : String
  /-- The least count of digits in an exponent. -/
  exponentWidth : Nat

/-- Exponents from -4 to 15 are positional, and an exponent has a sign and two digits or more. -/
def plain : Layout := ⟨-4, 15, ".0", "e", 2⟩

def zeros (count : Nat) : List Char := List.replicate count '0'

def paddedDigits (width n : Nat) : List Char :=
  let digits := Nat.toDigits 10 n
  zeros (width - digits.length) ++ digits

/-- The text of the positive decimal with these digits, the first of which counts `10 ^ leading`. -/
def Layout.arrange (layout : Layout) (digits : List Char) (leading : Int) : String :=
  if layout.leastPositional ≤ leading ∧ leading ≤ layout.greatestPositional then
    if leading < 0 then
      "0." ++ String.ofList (zeros (-leading - 1).toNat ++ digits)
    else
      let places := leading.toNat + 1
      if digits.length ≤ places then
        String.ofList (digits ++ zeros (places - digits.length)) ++ layout.wholeEnding
      else
        String.ofList (digits.take places ++ '.' :: digits.drop places)
  else
    let fraction := if digits.length ≤ 1 then [] else '.' :: digits.drop 1
    let sign := if leading < 0 then "-" else "+"
    String.ofList (digits.take 1 ++ fraction) ++ layout.exponentMark ++ sign ++
      String.ofList (paddedDigits layout.exponentWidth leading.natAbs)

def signText (negative : Bool) : String := if negative then "-" else ""

def text : Double → String
  | .nan => "nan"
  | .infinity negative => signText negative ++ "inf"
  | .finite negative 0 _ _ => signText negative ++ "0" ++ plain.wholeEnding
  | .finite negative significand exponent _ =>
    let decimal := shortest significand exponent
    let digits := Nat.toDigits 10 decimal.coefficient
    signText negative ++ plain.arrange digits (decimal.exponent + digits.length - 1)

end ScriptLang.Double
