import ScriptLang.Diagnostic.Basic
import ScriptLang.Source.Segment

namespace ScriptLang

inductive LexicalFault where
  | unexpectedCharacter (char : Char)
  | unterminatedString
  deriving DecidableEq

/-- Something in a source that is no token, with the line on which it ends. -/
structure LexicalError where
  fault : LexicalFault
  line : Int
  deriving DecidableEq

namespace LexicalError

def diagnostic (error : LexicalError) : Diagnostic :=
  match error.fault with
  | .unexpectedCharacter char =>
    { origin := .lexical, code := .unexpectedCharacter, line := some error.line, place := ""
      details := [("char", .text (String.ofList [char]))] }
  | .unterminatedString =>
    { origin := .lexical, code := .unterminatedString, line := some error.line, place := ""
      details := [] }

end LexicalError

namespace Segment

def token? : Segment × Int → Option Token
  | (.token kind literal text, line) => some ⟨kind, String.ofList text, literal, line⟩
  | _ => none

def error? : Segment × Int → Option LexicalError
  | (.unexpected char, line) => some ⟨.unexpectedCharacter char, line⟩
  | (.unterminated _, line) => some ⟨.unterminatedString, line⟩
  | _ => none

end Segment

/-- A source that is being scanned: what is left of it, the line reached, and what was found. -/
structure Scan where
  rest : List Char
  position : Nat
  line : Int
  tokens : List Token
  errors : List LexicalError

namespace Scan

def start (source : String) : Scan := ⟨source.toList, 0, 1, [], []⟩

/-- Scans all that is left and closes the tokens; a second run only adds another end mark. -/
def finish (scan : Scan) : Scan :=
  let segments := Segment.withLines scan.line (Segment.ofSource scan.rest)
  let last := scan.line + scan.rest.count '\n'
  { rest := []
    position := scan.position + scan.rest.length
    line := last
    tokens := scan.tokens ++ segments.filterMap Segment.token? ++ [Token.endMark last]
    errors := scan.errors ++ segments.filterMap Segment.error? }

end Scan

def scan (source : String) : Scan := (Scan.start source).finish

end ScriptLang
