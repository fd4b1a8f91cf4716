import ScriptLang.Syntax.Tree

namespace ScriptLang

namespace Expr

mutual

def preorder (tree : Expr) : List Expr :=
  tree :: match tree with
    | literal .. | name .. => []
    | grouping _ inner => inner.preorder
    | unary _ _ right => right.preorder
    | binary _ left _ right | logical _ left _ right => left.preorder ++ right.preorder
    | assign _ _ value => value.preorder
    | call _ callee _ arguments => callee.preorder ++ preorders arguments

def preorders : List Expr → List Expr
  | [] => []
  | tree :: rest => tree.preorder ++ preorders rest

end

def nodeName : Expr → String
  | literal .. => "LiteralExpr"
  | grouping .. => "GroupingExpr"
  | unary .. => "UnaryExpr"
  | binary .. => "BinaryExpr"
  | logical .. => "LogicalExpr"
  | name .. => "VariableExpr"
  | assign .. => "AssignExpr"
  | call .. => "CallExpr"

end Expr

namespace Stmt

mutual

/-- A statement and all statements inside it, each before its parts; the body of a function is a
block. -/
def preorder (tree : Stmt) : List Stmt :=
  tree :: match tree with
    | block _ statements => preorders statements
    | expression .. | print .. | letBinding .. => []
    | ifThen _ _ thenBranch => thenBranch.preorder
    | ifElse _ _ thenBranch elseBranch => thenBranch.preorder ++ elseBranch.preorder
    | whileLoop _ _ body => body.preorder
    | function _ _ _ bodyLine body => .block bodyLine body :: preorders body

def preorders : List Stmt → List Stmt
  | [] => []
  | tree :: rest => tree.preorder ++ preorders rest

end

def ownExpr? : Stmt → Option Expr
  | block .. | function .. => none
  | expression _ value | print _ value | letBinding _ _ value => some value
  | ifThen _ condition _ | ifElse _ condition _ _ | whileLoop _ condition _ => some condition

def nodeName : Stmt → String
  | block .. => "BlockStmt"
  | expression .. => "ExpressionStmt"
  | print .. => "PrintStmt"
  | letBinding .. => "LetStmt"
  | ifThen .. | ifElse .. => "IfStmt"
  | whileLoop .. => "WhileStmt"
  | function .. => "FunctionStmt"

end Stmt

/-- What a pass can be started on: a tree, or something that is none. -/
inductive PassTarget where
  | node (tree : Node)
  | token
  | parseResult
  | bareNode

inductive PassError where
  | unregistered (nodeName : String)
  | unhandled (passName nodeName : String)
  deriving DecidableEq

namespace PassError

def message : PassError → String
  | unregistered nodeName => "No visitor method registered for node type '" ++ nodeName ++ "'."
  | unhandled passName nodeName => passName ++ " cannot visit '" ++ nodeName ++ "' nodes."

end PassError

/-- The passes: over expressions, over statements, and over statements but first into the expression
of each. -/
inductive Pass where
  | expressions
  | statements
  | statementsEntering
  deriving DecidableEq

structure PassResult where
  count : Except PassError Nat
  seen : List String

namespace Pass

def name : Pass → String
  | expressions => "ExprOnly"
  | statements | statementsEntering => "StmtOnly"

private def counted (seen : List String) : PassResult := ⟨.ok seen.length, seen⟩

private def stopped (error : PassError) (seen : List String) : PassResult := ⟨.error error, seen⟩

def onExpr (pass : Pass) (tree : Expr) : PassResult :=
  match pass with
  | expressions => counted (tree.preorder.map Expr.kind)
  | _ => stopped (.unhandled pass.name tree.nodeName) []

def onStmt (pass : Pass) (tree : Stmt) : PassResult :=
  match pass with
  | expressions => stopped (.unhandled pass.name tree.nodeName) []
  | statements => counted (tree.preorder.map Stmt.kind)
  | statementsEntering =>
    let (before, rest) := tree.preorder.span fun statement => statement.ownExpr?.isNone
    match rest with
    | [] => counted (before.map Stmt.kind)
    | statement :: _ =>
      let seen := (before ++ [statement]).map Stmt.kind
      match statement.ownExpr? with
      | some value => stopped (.unhandled pass.name value.nodeName) seen
      | none => counted seen

def run (pass : Pass) : PassTarget → PassResult
  | .node (.expr tree) => pass.onExpr tree
  | .node (.stmt tree) => pass.onStmt tree
  | .token => stopped (.unregistered "Token") []
  | .parseResult => stopped (.unregistered "ParseResult") []
  | .bareNode => stopped (.unregistered "ASTNode") []

end Pass

end ScriptLang
