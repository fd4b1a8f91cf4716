import ScriptLang.Token

namespace ScriptLang

inductive Expr where
  | literal (line : Int) (value : Literal)
  | grouping (line : Int) (inner : Expr)
  | unary (line : Int) (operator : Token) (right : Expr)
  | binary (line : Int) (left : Expr) (operator : Token) (right : Expr)
  | logical (line : Int) (left : Expr) (operator : Token) (right : Expr)
  | name (line : Int) (token : Token)
  | assign (line : Int) (target : Token) (value : Expr)
  | call (line : Int) (callee : Expr) (paren : Token) (arguments : List Expr)
  deriving Inhabited

/-- A function keeps the line of its body's opening brace apart from its own. -/
inductive Stmt where
  | block (line : Int) (statements : List Stmt)
  | expression (line : Int) (value : Expr)
  | print (line : Int) (value : Expr)
  | letBinding (line : Int) (name : Token) (initializer : Expr)
  | ifThen (line : Int) (condition : Expr) (thenBranch : Stmt)
  | ifElse (line : Int) (condition : Expr) (thenBranch elseBranch : Stmt)
  | whileLoop (line : Int) (condition : Expr) (body : Stmt)
  | function (line : Int) (name : Token) (params : List Token) (bodyLine : Int) (body : List Stmt)
  deriving Inhabited

/-- A function declaration apart from other statements. -/
structure FunctionDecl where
  line : Int
  name : Token
  params : List Token
  bodyLine : Int
  body : List Stmt

inductive Node where
  | expr (tree : Expr)
  | stmt (tree : Stmt)

namespace Expr

def line : Expr → Int
  | literal line _ | grouping line _ | unary line _ _ | binary line _ _ _ | logical line _ _ _
  | name line _ | assign line _ _ | call line _ _ _ => line

def kind : Expr → String
  | literal .. => "literal"
  | grouping .. => "grouping"
  | unary .. => "unary"
  | binary .. => "binary"
  | logical .. => "logical"
  | name .. => "variable"
  | assign .. => "assign"
  | call .. => "call"

mutual

/-- Whether two expressions are equal up to literals that compare equal. -/
def alike : Expr → Expr → Bool
  | literal line value, literal line' value' => line = line' && value.numeral = value'.numeral
  | grouping line inner, grouping line' inner' => line = line' && alike inner inner'
  | unary line operator right, unary line' operator' right' =>
    line = line' && operator = operator' && alike right right'
  | binary line left operator right, binary line' left' operator' right' =>
    line = line' && alike left left' && operator = operator' && alike right right'
  | logical line left operator right, logical line' left' operator' right' =>
    line = line' && alike left left' && operator = operator' && alike right right'
  | name line token, name line' token' => line = line' && token = token'
  | assign line target value, assign line' target' value' =>
    line = line' && target = target' && alike value value'
  | call line callee paren arguments, call line' callee' paren' arguments' =>
    line = line' && alike callee callee' && paren = paren' && allAlike arguments arguments'
  | _, _ => false

def allAlike : List Expr → List Expr → Bool
  | [], [] => true
  | tree :: rest, tree' :: rest' => alike tree tree' && allAlike rest rest'
  | _, _ => false

end

end Expr

namespace Stmt

def line : Stmt → Int
  | block line _ | expression line _ | print line _ | letBinding line _ _ | ifThen line _ _
  | ifElse line _ _ _ | whileLoop line _ _ | function line _ _ _ _ => line

def kind : Stmt → String
  | block .. => "block"
  | expression .. => "expression"
  | print .. => "print"
  | letBinding .. => "let"
  | ifThen .. | ifElse .. => "if"
  | whileLoop .. => "while"
  | function .. => "function"

def function? : Stmt → Option FunctionDecl
  | function line name params bodyLine body => some ⟨line, name, params, bodyLine, body⟩
  | _ => none

mutual

def alike : Stmt → Stmt → Bool
  | block line statements, block line' statements' =>
    line = line' && allAlike statements statements'
  | expression line value, expression line' value' => line = line' && value.alike value'
  | print line value, print line' value' => line = line' && value.alike value'
  | letBinding line name initializer, letBinding line' name' initializer' =>
    line = line' && name = name' && initializer.alike initializer'
  | ifThen line condition thenBranch, ifThen line' condition' thenBranch' =>
    line = line' && condition.alike condition' && alike thenBranch thenBranch'
  | ifElse line condition thenBranch elseBranch, ifElse line' condition' thenBranch' elseBranch' =>
    line = line' && condition.alike condition' && alike thenBranch thenBranch' &&
      alike elseBranch elseBranch'
  | whileLoop line condition body, whileLoop line' condition' body' =>
    line = line' && condition.alike condition' && alike body body'
  | function line name params bodyLine body, function line' name' params' bodyLine' body' =>
    line = line' && name = name' && params = params' && bodyLine = bodyLine' && allAlike body body'
  | _, _ => false

def allAlike : List Stmt → List Stmt → Bool
  | [], [] => true
  | tree :: rest, tree' :: rest' => alike tree tree' && allAlike rest rest'
  | _, _ => false

end

end Stmt

namespace FunctionDecl

def toStmt (decl : FunctionDecl) : Stmt :=
  .function decl.line decl.name decl.params decl.bodyLine decl.body

def arity (decl : FunctionDecl) : Nat := decl.params.length

def block (decl : FunctionDecl) : Stmt := .block decl.bodyLine decl.body

end FunctionDecl

namespace Node

def line : Node → Int
  | expr tree => tree.line
  | stmt tree => tree.line

end Node

end ScriptLang
