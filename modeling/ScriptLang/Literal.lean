import ScriptLang.Double.Text

namespace ScriptLang

inductive Literal where
  | null
  | bool (value : Bool)
  | number (value : Double)
  | string (value : String)
  deriving DecidableEq, Inhabited

namespace Literal

def text : Literal → String
  | .null => "null"
  | .bool true => "true"
  | .bool false => "false"
  | .number value =>
    match value.toInt? with
    | some n => toString n
    | none => value.text
  | .string value => value

def shown? : Literal → Option String
  | .null => none
  | .bool true => some "True"
  | .bool false => some "False"
  | .number value => some value.text
  | .string value => some value

/-- The literal that stands for all that compare equal to it: a truth value is as good as the
number one or zero. -/
def numeral : Literal → Literal
  | .bool true => .number (Double.ofRatio false 1 1)
  | .bool false => .number (Double.zero false)
  | literal => literal

end Literal

end ScriptLang
