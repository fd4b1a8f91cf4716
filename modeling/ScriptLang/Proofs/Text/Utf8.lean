import Mathlib.Tactic.SplitIfs
import ScriptLang.Text.Utf8

namespace ScriptLang.Text

section Lead

variable {lead : Nat} (position : Nat)

end Lead

section Bytes

variable {position byte : Nat} {part : PartialChar} {read : List Char} {rest : List Nat}

end Bytes

section Characters

end Characters

end ScriptLang.Text
