import ScriptLang.Diagnostic.Basic
import ScriptLang.Json.Writer
import ScriptLang.Syntax.Tree

namespace ScriptLang

namespace Literal

def toJson : Literal → JsonValue
  | null => .null
  | bool value => .bool value
  | number value => .number value
  | string value => .string value

end Literal

namespace TokenKind

def toJson (kind : TokenKind) : JsonValue := .string kind.name

end TokenKind

namespace Token

def toJson (token : Token) : JsonValue :=
  .object
    [("type", token.kind.toJson), ("lexeme", .string token.lexeme),
     ("literal", token.literal.toJson), ("line", .integer token.line)]

end Token

def treeJson (line : Int) (kind : String) (parts : List (String × JsonValue)) : JsonValue :=
  .object (("line", .integer line) :: ("node_type", .string kind) :: parts)

namespace Expr

mutual

def toJson (tree : Expr) : JsonValue :=
  match tree with
  | literal line value => treeJson line "literal" [("value", value.toJson)]
  | grouping line inner => treeJson line "grouping" [("expression", inner.toJson)]
  | unary line operator right =>
    treeJson line "unary" [("operator", operator.toJson), ("right", right.toJson)]
  | binary line left operator right =>
    treeJson line "binary"
      [("left", left.toJson), ("operator", operator.toJson), ("right", right.toJson)]
  | logical line left operator right =>
    treeJson line "logical"
      [("left", left.toJson), ("operator", operator.toJson), ("right", right.toJson)]
  | name line token => treeJson line "variable" [("name", token.toJson)]
  | assign line target value =>
    treeJson line "assign" [("name", target.toJson), ("value", value.toJson)]
  | call line callee paren arguments =>
    treeJson line "call"
      [("callee", callee.toJson), ("paren", paren.toJson),
       ("arguments", .array (toJsons arguments))]

def toJsons : List Expr → List JsonValue
  | [] => []
  | tree :: rest => tree.toJson :: toJsons rest

end

end Expr

namespace Stmt

mutual

def toJson (tree : Stmt) : JsonValue :=
  match tree with
  | block line statements => treeJson line "block" [("statements", .array (toJsons statements))]
  | expression line value => treeJson line "expression" [("expression", value.toJson)]
  | print line value => treeJson line "print" [("expression", value.toJson)]
  | letBinding line name initializer =>
    treeJson line "let" [("name", name.toJson), ("initializer", initializer.toJson)]
  | ifThen line condition thenBranch =>
    treeJson line "if"
      [("condition", condition.toJson), ("then_branch", thenBranch.toJson), ("else_branch", .null)]
  | ifElse line condition thenBranch elseBranch =>
    treeJson line "if"
      [("condition", condition.toJson), ("then_branch", thenBranch.toJson),
       ("else_branch", elseBranch.toJson)]
  | whileLoop line condition body =>
    treeJson line "while" [("condition", condition.toJson), ("body", body.toJson)]
  | function line name params bodyLine body =>
    treeJson line "function"
      [("name", name.toJson), ("params", .array (params.map Token.toJson)),
       ("body", treeJson bodyLine "block" [("statements", .array (toJsons body))])]

def toJsons : List Stmt → List JsonValue
  | [] => []
  | tree :: rest => tree.toJson :: toJsons rest

end

end Stmt

namespace Diagnostic

def toJson (diagnostic : Diagnostic) : JsonValue :=
  .object
    [("code", .string diagnostic.code.name),
     ("line", match diagnostic.line with | some line => .integer line | none => .null),
     ("message", .string diagnostic.message)]

end Diagnostic

inductive Artifact where
  | tokens (all : List Token)
  | ast (statements : List Stmt)

namespace Artifact

def toJson : Artifact → JsonValue
  | .tokens all => .array (all.map Token.toJson)
  | .ast statements => .array (Stmt.toJsons statements)

end Artifact

end ScriptLang
