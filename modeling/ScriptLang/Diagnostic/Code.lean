namespace ScriptLang

inductive Code where
  | unexpectedCharacter
  | unterminatedString
  | expectedToken
  | expectedExpression
  | invalidAssignmentTarget
  | tooManyArguments
  | tooManyParameters
  | undefinedVariable
  | scopeDiscarded
  | scopeStillEnclosing
  | globalScopeDiscard
  | argumentCountMismatch
  | frontEndFailed
  | treeTooDeep
  deriving DecidableEq, Inhabited

/-- A part of a message: fixed words, or the place of a detail. -/
inductive Part where
  | words (text : String)
  | field (name : String)

namespace Code

def name : Code → String
  | unexpectedCharacter => "UNEXPECTED_CHARACTER"
  | unterminatedString => "UNTERMINATED_STRING"
  | expectedToken => "EXPECTED_TOKEN"
  | expectedExpression => "EXPECTED_EXPRESSION"
  | invalidAssignmentTarget => "INVALID_ASSIGNMENT_TARGET"
  | tooManyArguments => "TOO_MANY_ARGUMENTS"
  | tooManyParameters => "TOO_MANY_PARAMETERS"
  | undefinedVariable => "UNDEFINED_VARIABLE"
  | scopeDiscarded => "SCOPE_DISCARDED"
  | scopeStillEnclosing => "SCOPE_STILL_ENCLOSING"
  | globalScopeDiscard => "GLOBAL_SCOPE_DISCARD"
  | argumentCountMismatch => "ARGUMENT_COUNT_MISMATCH"
  | frontEndFailed => "FRONT_END_FAILED"
  | treeTooDeep => "TREE_TOO_DEEP"

def all : List Code :=
  [unexpectedCharacter, unterminatedString, expectedToken, expectedExpression,
   invalidAssignmentTarget, tooManyArguments, tooManyParameters, undefinedVariable, scopeDiscarded,
   scopeStillEnclosing, globalScopeDiscard, argumentCountMismatch, frontEndFailed, treeTooDeep]

def ofName? (name : String) : Option Code :=
  all.find? fun code => code.name = name

def template : Code → List Part
  | unexpectedCharacter => [.words "Unexpected character '", .field "char", .words "'."]
  | unterminatedString => [.words "Unterminated string."]
  | expectedToken =>
    [.words "Expect ", .field "expected", .words " ", .field "context", .words "."]
  | expectedExpression => [.words "Expect expression."]
  | invalidAssignmentTarget => [.words "Invalid assignment target."]
  | tooManyArguments => [.words "Can't have more than ", .field "limit", .words " arguments."]
  | tooManyParameters => [.words "Can't have more than ", .field "limit", .words " parameters."]
  | undefinedVariable => [.words "Reference to undefined variable '", .field "name", .words "'."]
  | scopeDiscarded => [.words "Scope ", .field "index", .words " has already been discarded."]
  | scopeStillEnclosing =>
    [.words "Scope ", .field "index", .words " cannot be discarded while it encloses ",
     .field "children", .words " live scope(s)."]
  | globalScopeDiscard => [.words "The global scope cannot be discarded."]
  | argumentCountMismatch =>
    [.words "Function '", .field "name", .words "' expects ", .field "expected",
     .words " argument(s), but got ", .field "provided", .words "."]
  | frontEndFailed =>
    [.field "count", .words " error(s) found in '", .field "file_path", .words "'."]
  | treeTooDeep =>
    [.words "Syntax tree starting on line ", .field "start",
     .words " is nested too deeply to print (recursion limit ", .field "limit", .words ")."]

end Code

end ScriptLang
