import ScriptLang.Diagnostic.Basic
import ScriptLang.Syntax.Tree

namespace ScriptLang

/-- A reference to a scope of an arena. Handles that were issued apart have different serials. -/
structure Handle where
  serial : Nat
  arena : Nat
  scope : Nat
  deriving DecidableEq, Inhabited

/-- A function is its declaration together with the scope that it was declared in. -/
structure Function where
  declaration : FunctionDecl
  closure : Handle

namespace Function

def name (function : Function) : String := function.declaration.name.lexeme

def shown (function : Function) : String := "<fn " ++ function.name ++ ">"

def alike (f g : Function) : Bool :=
  f.declaration.toStmt.alike g.declaration.toStmt && f.closure = g.closure

end Function

inductive Value where
  | literal (value : Literal)
  | list (items : List Value)
  | function (value : Function)

namespace Value

instance : Inhabited Value := ⟨.literal .null⟩

mutual

def closures : Value → List Handle
  | literal _ => []
  | list items => allClosures items
  | function value => [value.closure]

def allClosures : List Value → List Handle
  | [] => []
  | value :: rest => value.closures ++ allClosures rest

end

/-- A list with one more item; any other value stays as it is. -/
def push (value item : Value) : Value :=
  match value with
  | list items => list (items ++ [item])
  | value => value

end Value

structure Identifier where
  text : String
  line : Option Int
  deriving DecidableEq

namespace Identifier

def ofToken (token : Token) : Identifier := ⟨token.lexeme, some token.line⟩

end Identifier

inductive ScopeError where
  | undefined (name : Identifier)
  | discarded (scope : Nat)
  | stillEnclosing (scope children : Nat)
  | globalDiscard
  | argumentCount (name : String) (expected provided : Nat) (line : Option Int)
  deriving DecidableEq

namespace ScopeError

def diagnostic : ScopeError → Diagnostic
  | undefined name => Diagnostic.undefined name.text name.line
  | discarded scope =>
    { origin := .general, code := .scopeDiscarded, line := none, place := ""
      details := [("index", .integer scope)] }
  | stillEnclosing scope children =>
    { origin := .general, code := .scopeStillEnclosing, line := none, place := ""
      details := [("index", .integer scope), ("children", .integer children)] }
  | globalDiscard =>
    { origin := .general, code := .globalScopeDiscard, line := none, place := "", details := [] }
  | argumentCount name expected provided line =>
    { origin := .general, code := .argumentCountMismatch, line := line, place := ""
      details :=
        [("name", .text name), ("expected", .integer expected), ("provided", .integer provided)] }

end ScopeError

end ScriptLang
