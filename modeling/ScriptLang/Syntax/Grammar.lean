import ScriptLang.Syntax.Rule
import ScriptLang.Syntax.Tree

namespace ScriptLang.Grammar

open Rule

inductive Level where
  | disjunction | conjunction | equality | comparison | sum | product
  deriving DecidableEq

namespace Level

def all : List Level := [disjunction, conjunction, equality, comparison, sum, product]

def operators : Level → List TokenKind
  | disjunction => [.orWord]
  | conjunction => [.andWord]
  | equality => [.bangEqual, .equalEqual]
  | comparison => [.greater, .greaterEqual, .less, .lessEqual]
  | sum => [.minus, .plus]
  | product => [.slash, .star, .percent]

/-- Joins two operands; an operator that may skip its right operand makes a logical node. -/
def join (level : Level) (left : Expr) (operator : Token) (right : Expr) : Expr :=
  match level with
  | disjunction | conjunction => .logical left.line left operator right
  | _ => .binary left.line left operator right

end Level

def prefixOperators : List TokenKind := [.bang, .minus]

/-- The greatest count of arguments and of parameters, if there is one. -/
class ListLimit where
  greatest? : Option Nat

namespace ListLimit

instance : ListLimit := ⟨some maxArguments⟩

@[reducible] def unlimited : ListLimit := ⟨none⟩

def Exceeds : Option Nat → Nat → Prop
  | some limit, count => limit ≤ count
  | none, _ => False

instance : (limit? : Option Nat) → (count : Nat) → Decidable (Exceeds limit? count)
  | some limit, count => inferInstanceAs (Decidable (limit ≤ count))
  | none, _ => inferInstanceAs (Decidable False)

end ListLimit

section Lists

variable [ListLimit] {α : Type}

/-- One more item of a list after so many; past the limit it is read but flagged. -/
def item (fault : SyntaxFault) (count : Nat) (rule : Rule α) : Rule α := do
  if ListLimit.Exceeds ListLimit.greatest? count then flag fault
  rule

def itemList (more : List α → Rule (List α)) : Rule (List α) := do
  if ← isNext .rightParen then return []
  else
    let first ← more []
    iterate (fun read => do
      match ← accept? [.comma] with
      | some _ => return some (← more read)
      | none => return none) first

end Lists

variable [ListLimit]

section Expressions

variable (expression : Rule Expr)

def primary : Rule Expr := do
  match ← accept? [.falseWord, .trueWord, .nullWord, .number, .string, .identifier, .leftParen] with
  | none => stop .expectedExpression
  | some token =>
    match token.kind with
    | .falseWord => return .literal token.line (.bool false)
    | .trueWord => return .literal token.line (.bool true)
    | .nullWord => return .literal token.line .null
    | .identifier => return .name token.line token
    | .leftParen =>
      let inner ← expression
      let _ ← expect .rightParen "after expression"
      return .grouping token.line inner
    | _ => return .literal token.line token.literal

def argument (arguments : List Expr) : Rule (List Expr) :=
  item .tooManyArguments arguments.length do return arguments ++ [← expression]

def arguments : Rule (List Expr) := itemList (argument expression)

def call : Rule Expr := do
  let callee ← primary expression
  iterate (fun callee => do
    match ← accept? [.leftParen] with
    | some _ =>
      let arguments ← arguments expression
      let paren ← expect .rightParen "after arguments"
      return some (.call callee.line callee paren arguments)
    | none => return none) callee

def unary : Rule Expr := fix fun unary => do
  match ← accept? prefixOperators with
  | some operator => return .unary operator.line operator (← unary)
  | none => call expression

/-- Operands of a level joined from left to right. -/
def binary (level : Level) (operand : Rule Expr) : Rule Expr := do
  let first ← operand
  iterate (fun left => do
    match ← accept? level.operators with
    | some operator => return some (level.join left operator (← operand))
    | none => return none) first

def operation : Rule Expr := Level.all.foldr binary (unary expression)

/-- An operation, or an assignment to it. Only a name can be assigned to; any other target is kept
without its value and the error is recorded at the equals sign. -/
def assignment : Rule Expr := do
  let target ← operation expression
  let equalsPosition ← position
  match ← accept? [.equal] with
  | none => return target
  | some equals =>
    let value ← expression
    match target with
    | .name line token => return .assign line token value
    | _ =>
      recordError ⟨.invalidAssignmentTarget, equals, equalsPosition⟩
      return target

end Expressions

def expression : Rule Expr := fix assignment

def wholeExpression : Rule Expr := do
  let value ← expression
  if ← atEnd then return value else stop (.expectedToken "end of input" "after expression")

section Statements

variable (block : Rule (List Stmt))

def parameter (params : List Token) : Rule (List Token) :=
  item .tooManyParameters params.length do
    return params ++ [← expectNamed .identifier "parameter name" "in parameter list"]

def parameters : Rule (List Token) := itemList parameter

def functionDeclaration (keyword : Token) : Rule Stmt := do
  let name ← expectNamed .identifier "function name" "after 'fn'"
  let _ ← expect .leftParen "after function name"
  let params ← parameters
  let _ ← expect .rightParen "after parameters"
  let brace ← expect .leftBrace "before function body"
  return .function keyword.line name params brace.line (← block)

def letDeclaration (keyword : Token) : Rule Stmt := do
  let name ← expectNamed .identifier "variable name" "after 'let'"
  let _ ← expect .equal "after variable name"
  let initializer ← expression
  let _ ← expect .semicolon "after variable declaration"
  return .letBinding keyword.line name initializer

def printStatement (keyword : Token) : Rule Stmt := do
  let value ← expression
  let _ ← expect .semicolon "after value"
  return .print keyword.line value

/-- A branch follows its condition, and an else belongs to the nearest branch before it. -/
def ifStatement (statement : Rule Stmt) (keyword : Token) : Rule Stmt := do
  let _ ← expect .leftParen "after 'if'"
  let condition ← expression
  let _ ← expect .rightParen "after if condition"
  let thenBranch ← statement
  match ← accept? [.elseWord] with
  | some _ => return .ifElse keyword.line condition thenBranch (← statement)
  | none => return .ifThen keyword.line condition thenBranch

def whileStatement (statement : Rule Stmt) (keyword : Token) : Rule Stmt := do
  let _ ← expect .leftParen "after 'while'"
  let condition ← expression
  let _ ← expect .rightParen "after condition"
  return .whileLoop keyword.line condition (← statement)

def expressionStatement : Rule Stmt := do
  let value ← expression
  let _ ← expect .semicolon "after expression"
  return .expression value.line value

def statement : Rule Stmt := fix fun statement => do
  match ← accept? [.printWord, .ifWord, .whileWord, .leftBrace] with
  | none => expressionStatement
  | some token =>
    match token.kind with
    | .printWord => printStatement token
    | .ifWord => ifStatement statement token
    | .whileWord => whileStatement statement token
    | _ => return .block token.line (← block)

def declarationOrStatement : Rule Stmt := do
  match ← accept? [.fnWord, .letWord] with
  | none => statement block
  | some token =>
    match token.kind with
    | .fnWord => functionDeclaration block token
    | _ => letDeclaration token

end Statements

def atClosingBrace : Rule Bool := do
  if ← insideBlock then isNext .rightBrace else return false

/-- Drops tokens up to a statement boundary: past a semicolon, before a token that begins a
statement, before the brace that closes the open block, or before the end mark. -/
def synchronize : Rule Unit := do
  if ← atClosingBrace then return
  if ← atEnd then return
  -- the offending token goes in any case, even if a statement could begin with it
  let dropped ← next
  let _ ← iterate (fun dropped => do
    let token ← peek
    if token.isEof || dropped.kind = .semicolon || token.kind.startsStatement then return none
    else if ← atClosingBrace then return none
    else return some (← next)) dropped

/-- The statements of a block whose opening brace is already read, and its closing brace. -/
def block (declaration : Rule (Option Stmt)) : Rule (List Stmt) := do
  let statements ← inBlock (iterate (fun statements => do
    if ← isNext .rightBrace then return none
    else if ← atEnd then return none
    else return some (statements ++ (← declaration).toList)) [])
  let _ ← expect .rightBrace "after block"
  return statements

/-- A declaration or a statement; one that is malformed is recorded and skipped. -/
def declaration : Rule (Option Stmt) := fix fun declaration =>
  rescue (some <$> declarationOrStatement (block declaration)) fun error => do
    recordError error
    synchronize
    return none

/-- All declarations up to the end mark. -/
def program : Rule (List Stmt) :=
  iterate (fun statements => do
    if ← atEnd then return none
    else return some (statements ++ (← declaration).toList)) []

end ScriptLang.Grammar
