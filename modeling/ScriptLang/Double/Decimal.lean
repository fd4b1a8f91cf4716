import ScriptLang.Double.Basic

namespace ScriptLang.Double

def ofDigitChars (digits : List Char) : Nat :=
  digits.foldl (fun n c => 10 * n + (c.toNat - '0'.toNat)) 0

/-- The number nearest to `whole.fraction`, either of which may be empty. -/
def ofDecimal (negative : Bool) (whole fraction : List Char) : Double :=
  ofRatio negative (ofDigitChars (whole ++ fraction)) (Nat.pow 10 fraction.length)

/-- Reads digits with an optional sign and an optional fraction, `inf`, `-inf` and `nan`. -/
def ofText? (text : String) : Option Double :=
  match text.toList with
  | ['n', 'a', 'n'] => some .nan
  | ['i', 'n', 'f'] => some (.infinity false)
  | ['-', 'i', 'n', 'f'] => some (.infinity true)
  | '-' :: rest => unsigned true rest
  | rest => unsigned false rest
where
  unsigned (negative : Bool) (text : List Char) : Option Double :=
    let whole := text.takeWhile (· ≠ '.')
    let fraction := (text.dropWhile (· ≠ '.')).drop 1
    if (whole ++ fraction).all Char.isDigit ∧ whole ≠ [] then
      some (ofDecimal negative whole fraction)
    else none

end ScriptLang.Double
