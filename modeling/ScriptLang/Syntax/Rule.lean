import ScriptLang.Diagnostic.Basic

namespace ScriptLang

inductive SyntaxFault where
  | expectedToken (expected context : String)
  | expectedExpression
  | invalidAssignmentTarget
  | tooManyArguments
  | tooManyParameters
  deriving DecidableEq

/-- A fault, the token that shows it, and the index of that token. -/
structure SyntaxError where
  fault : SyntaxFault
  token : Token
  position : Nat
  deriving DecidableEq

def maxArguments : Nat := 255

namespace SyntaxFault

def code : SyntaxFault → Code
  | expectedToken .. => .expectedToken
  | expectedExpression => .expectedExpression
  | invalidAssignmentTarget => .invalidAssignmentTarget
  | tooManyArguments => .tooManyArguments
  | tooManyParameters => .tooManyParameters

def details : SyntaxFault → List (String × Detail)
  | expectedToken expected context => [("expected", .text expected), ("context", .text context)]
  | tooManyArguments | tooManyParameters => [("limit", .integer maxArguments)]
  | expectedExpression | invalidAssignmentTarget => []

end SyntaxFault

namespace SyntaxError

def diagnostic (error : SyntaxError) : Diagnostic where
  origin := .syntactic error.token
  code := error.fault.code
  line := some error.token.line
  place := Diagnostic.placeOf error.token
  details := error.fault.details
  filled := by cases error.fault <;> rfl

end SyntaxError

/-- Where reading stands: the index of the next token, the tokens from there on, and how many blocks
are open. -/
structure Cursor where
  position : Nat
  rest : List Token
  openBlocks : Nat

namespace Cursor

def start (tokens : List Token) : Cursor := ⟨0, tokens, 0⟩

end Cursor

/-- How reading a piece of syntax ends. -/
inductive Ending (α : Type) where
  | done (value : α)
  | stopped (error : SyntaxError)
  | ranOut

/-- What a rule leaves behind: its ending, where it stands then, and the errors it recorded. -/
structure Reading (α : Type) where
  ending : Ending α
  cursor : Cursor
  recorded : List SyntaxError

def Rule (α : Type) : Type := Cursor → Reading α

namespace Rule

variable {α β : Type}

protected def pure (value : α) : Rule α := fun cursor => ⟨.done value, cursor, []⟩

protected def bind (first : Rule α) (next : α → Rule β) : Rule β := fun cursor =>
  match first cursor with
  | ⟨.done value, cursor, recorded⟩ =>
    let second := next value cursor
    ⟨second.ending, second.cursor, recorded ++ second.recorded⟩
  | ⟨.stopped error, cursor, recorded⟩ => ⟨.stopped error, cursor, recorded⟩
  | ⟨.ranOut, cursor, recorded⟩ => ⟨.ranOut, cursor, recorded⟩

instance : Monad Rule where
  pure := Rule.pure
  bind := Rule.bind

def peek : Rule Token := fun cursor =>
  match cursor.rest with
  | [] => ⟨.ranOut, cursor, []⟩
  | token :: _ => ⟨.done token, cursor, []⟩

def next : Rule Token := fun cursor =>
  match cursor.rest with
  | [] => ⟨.ranOut, cursor, []⟩
  | token :: rest => ⟨.done token, { cursor with position := cursor.position + 1, rest }, []⟩

/-- Stops at the next token. -/
def stop (fault : SyntaxFault) : Rule α := fun cursor =>
  match cursor.rest with
  | [] => ⟨.ranOut, cursor, []⟩
  | token :: _ => ⟨.stopped ⟨fault, token, cursor.position⟩, cursor, []⟩

def recordError (error : SyntaxError) : Rule Unit := fun cursor => ⟨.done (), cursor, [error]⟩

def flag (fault : SyntaxFault) : Rule Unit := fun cursor =>
  match cursor.rest with
  | [] => ⟨.ranOut, cursor, []⟩
  | token :: _ => ⟨.done (), cursor, [⟨fault, token, cursor.position⟩]⟩

def position : Rule Nat := fun cursor => ⟨.done cursor.position, cursor, []⟩

def insideBlock : Rule Bool := fun cursor => ⟨.done (decide (0 < cursor.openBlocks)), cursor, []⟩

/-- Reads something inside one more block, which is closed again however the reading ends. -/
def inBlock (rule : Rule α) : Rule α := fun cursor =>
  let reading := rule { cursor with openBlocks := cursor.openBlocks + 1 }
  { reading with cursor := { reading.cursor with openBlocks := cursor.openBlocks } }

/-- Reads on after an error that stopped a rule. -/
def rescue (rule : Rule α) (handler : SyntaxError → Rule α) : Rule α := fun cursor =>
  match rule cursor with
  | ⟨.stopped error, cursor, recorded⟩ =>
    let second := handler error cursor
    ⟨second.ending, second.cursor, recorded ++ second.recorded⟩
  | reading => reading

def atEnd : Rule Bool := do return (← peek).isEof

/-- Whether the next token is of this kind, which is not that of an end mark. -/
def isNext (kind : TokenKind) : Rule Bool := do
  let token ← peek
  return !token.isEof && token.kind = kind

def accept? (kinds : List TokenKind) : Rule (Option Token) := do
  let token ← peek
  if !token.isEof && token.kind ∈ kinds then some <$> next else return none

/-- Uses up the next token, which must be of this kind; `expected` is what an error calls it. -/
def expectNamed (kind : TokenKind) (expected context : String) : Rule Token := do
  match ← accept? [kind] with
  | some token => return token
  | none => stop (.expectedToken expected context)

def expect (kind : TokenKind) (context : String) : Rule Token :=
  expectNamed kind kind.description context

/-- A rule that refers to itself, with a bound on the depth. -/
def fixWithin (body : Rule α → Rule α) : Nat → Rule α
  | 0, cursor => ⟨.ranOut, cursor, []⟩
  | bound + 1, cursor => body (fixWithin body bound) cursor

/-- A rule that refers to itself, each time after at least one token. -/
def fix (body : Rule α → Rule α) : Rule α := fun cursor => fixWithin body cursor.rest.length cursor

def iterateWithin (step : α → Rule (Option α)) : Nat → α → Rule α
  | 0, _, cursor => ⟨.ranOut, cursor, []⟩
  | bound + 1, value, cursor =>
    -- a step that gives no new value ends the repetition where it stands
    (step value).bind (fun
      | some value => iterateWithin step bound value
      | none => Rule.pure value) cursor

/-- Repeats a step for as long as it gives a new value, each time after at least one token. -/
def iterate (step : α → Rule (Option α)) (value : α) : Rule α := fun cursor =>
  iterateWithin step cursor.rest.length value cursor

end Rule

end ScriptLang
