import ScriptLang.Diagnostic.Basic
import ScriptLang.Host

namespace ScriptLang

def parenthesize (parts : List String) : String := "(" ++ " ".intercalate parts ++ ")"

namespace Expr

/-- The prefix form; a call shows only what is called. -/
def prefixForm : Expr → String
  | literal _ value => value.text
  | grouping _ inner => parenthesize ["group", inner.prefixForm]
  | unary _ operator right => parenthesize [operator.lexeme, right.prefixForm]
  | binary _ left operator right | logical _ left operator right =>
    parenthesize [operator.lexeme, left.prefixForm, right.prefixForm]
  | name _ token => token.lexeme
  | assign _ target value => "= " ++ target.lexeme ++ " " ++ value.prefixForm
  | call _ callee _ _ => callee.prefixForm

end Expr

namespace Stmt

mutual

def prefixForm : Stmt → String
  | block _ statements => parenthesize ("block" :: prefixForms statements)
  | expression _ value => parenthesize [";", value.prefixForm]
  | print _ value => parenthesize ["print", value.prefixForm]
  | letBinding _ name initializer => parenthesize ["let", name.lexeme, initializer.prefixForm]
  | ifThen _ condition thenBranch =>
    parenthesize ["if", condition.prefixForm, thenBranch.prefixForm]
  | ifElse _ condition thenBranch elseBranch =>
    parenthesize ["if", condition.prefixForm, thenBranch.prefixForm, elseBranch.prefixForm]
  | whileLoop _ condition body => parenthesize ["while", condition.prefixForm, body.prefixForm]
  | function _ name params _ body =>
    parenthesize ("fn" :: name.lexeme :: parenthesize (params.map Token.lexeme) :: prefixForms body)

def prefixForms : List Stmt → List String
  | [] => []
  | statement :: rest => statement.prefixForm :: prefixForms rest

end

end Stmt

namespace Node

def prefixForm : Node → String
  | expr tree => tree.prefixForm
  | stmt tree => tree.prefixForm

variable [Host]

def tooDeep (node : Node) : Diagnostic where
  origin := .general
  code := .treeTooDeep
  line := none
  place := ""
  details := [("start", .integer node.line), ("limit", .integer Host.callLimit)]

/-- The prefix form of a tree, unless it is too deep for the host. -/
def print (node : Node) : Except Diagnostic String :=
  if Host.hasRoom node then .ok node.prefixForm else .error node.tooDeep

def printAll (nodes : List Node) : Except Diagnostic String :=
  "\n".intercalate <$> nodes.mapM print

end Node

end ScriptLang
