import ScriptLang.Diagnostic.Code
import ScriptLang.Token

namespace ScriptLang

inductive Detail where
  | text (value : String)
  | integer (value : Int)
  deriving DecidableEq

namespace Detail

def shown : Detail → String
  | text value => value
  | integer value => toString value

end Detail

namespace Code

def missing? (code : Code) (details : List (String × Detail)) : Option String :=
  code.template.findSome? fun
    | .words _ => none
    | .field name => if (details.lookup name).isNone then some name else none

def fill (code : Code) (details : List (String × Detail)) : String :=
  String.join <| code.template.map fun
    | .words text => text
    | .field name => ((details.lookup name).map Detail.shown).getD ""

end Code

inductive Origin where
  | general
  | lexical
  | syntactic (token : Token)
  | unbound
  deriving DecidableEq

/-- `place` stands in the message after the word for an error. -/
structure Diagnostic where
  origin : Origin
  code : Code
  line : Option Int
  place : String
  details : List (String × Detail)
  filled : code.missing? details = none := by rfl
  deriving DecidableEq

namespace Diagnostic

/-- The diagnostic with these details, or the first field that they leave open. -/
def make (origin : Origin) (code : Code) (line : Option Int) (place : String)
    (details : List (String × Detail)) : Except String Diagnostic :=
  match h : code.missing? details with
  | some field => .error field
  | none => .ok ⟨origin, code, line, place, details, h⟩

def core (diagnostic : Diagnostic) : String := diagnostic.code.fill diagnostic.details

def message (diagnostic : Diagnostic) : String :=
  let line := match diagnostic.line with
    | some line => "[line " ++ toString line ++ "] "
    | none => ""
  line ++ "Error" ++ diagnostic.place ++ ": " ++ diagnostic.core

def placeOf (token : Token) : String :=
  if token.isEof then " at end" else " at '" ++ token.lexeme ++ "'"

def makeAt (token : Token) (code : Code) (details : List (String × Detail)) :
    Except String Diagnostic :=
  make (.syntactic token) code (some token.line) (placeOf token) details

def undefined (name : String) (line : Option Int) : Diagnostic where
  origin := .unbound
  code := .undefinedVariable
  line := line
  place := ""
  details := [("name", .text name)]

end Diagnostic

end ScriptLang
