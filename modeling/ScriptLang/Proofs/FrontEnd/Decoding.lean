import ScriptLang.FrontEnd.Run

namespace ScriptLang

section Tokens

def Literal.ofJson? : JsonValue → Option Literal
  | .null => some .null
  | .bool value => some (.bool value)
  | .number value => some (.number value)
  | .string value => some (.string value)
  | .integer _ | .array _ | .object _ => none

theorem Literal.ofJson?_toJson (literal : Literal) : ofJson? literal.toJson = some literal := by
  cases literal <;> rfl

def TokenKind.ofJson? : JsonValue → Option TokenKind
  | .string name => ofName? name
  | _ => none

theorem TokenKind.ofJson?_toJson (kind : TokenKind) : ofJson? kind.toJson = some kind := by
  have hall : ∀ kind ∈ all, ofName? kind.name = some kind := by decide
  exact hall kind kind.mem_all

def Token.ofJson? : JsonValue → Option Token
  | .object [("type", kind), ("lexeme", .string lexeme), ("literal", literal),
      ("line", .integer line)] => do
    return ⟨← TokenKind.ofJson? kind, lexeme, ← Literal.ofJson? literal, line⟩
  | _ => none

theorem Token.ofJson?_toJson (token : Token) : ofJson? token.toJson = some token := by
  unfold toJson
  rw [ofJson?, TokenKind.ofJson?_toJson, Literal.ofJson?_toJson]
  rfl

theorem Token.mapM_ofJson? (tokens : List Token) :
    (tokens.map Token.toJson).mapM ofJson? = some tokens := by
  induction tokens with
  | nil => rfl
  | cons token rest ih =>
    rw [List.map_cons, List.mapM_cons, ofJson?_toJson, ih]
    rfl

end Tokens

namespace Expr

mutual

def ofJson? (value : JsonValue) : Option Expr :=
  match value with
  | .object (("line", .integer line) :: ("node_type", .string kind) :: parts) =>
    match kind, parts with
    | "literal", [("value", value)] => do return literal line (← Literal.ofJson? value)
    | "grouping", [("expression", inner)] => do return grouping line (← ofJson? inner)
    | "unary", [("operator", operator), ("right", right)] => do
      return unary line (← Token.ofJson? operator) (← ofJson? right)
    | "binary", [("left", left), ("operator", operator), ("right", right)] => do
      return binary line (← ofJson? left) (← Token.ofJson? operator) (← ofJson? right)
    | "logical", [("left", left), ("operator", operator), ("right", right)] => do
      return logical line (← ofJson? left) (← Token.ofJson? operator) (← ofJson? right)
    | "variable", [("name", token)] => do return name line (← Token.ofJson? token)
    | "assign", [("name", target), ("value", value)] => do
      return assign line (← Token.ofJson? target) (← ofJson? value)
    | "call", [("callee", callee), ("paren", paren), ("arguments", .array arguments)] => do
      return call line (← ofJson? callee) (← Token.ofJson? paren) (← ofJsons? arguments)
    | _, _ => none
  | _ => none

def ofJsons? : List JsonValue → Option (List Expr)
  | [] => some []
  | value :: rest => do return (← ofJson? value) :: (← ofJsons? rest)

end

mutual

theorem ofJson?_toJson (tree : Expr) : ofJson? tree.toJson = some tree := by
  cases tree with
  | literal line value =>
    rw [toJson, treeJson, ofJson?, Literal.ofJson?_toJson]
    rfl
  | grouping line inner =>
    rw [toJson, treeJson, ofJson?, inner.ofJson?_toJson]
    rfl
  | unary line operator right =>
    rw [toJson, treeJson, ofJson?, Token.ofJson?_toJson, right.ofJson?_toJson]
    rfl
  | binary line left operator right | logical line left operator right =>
    rw [toJson, treeJson, ofJson?, left.ofJson?_toJson, Token.ofJson?_toJson, right.ofJson?_toJson]
    rfl
  | name line token =>
    rw [toJson, treeJson, ofJson?, Token.ofJson?_toJson]
    rfl
  | assign line target value =>
    rw [toJson, treeJson, ofJson?, Token.ofJson?_toJson, value.ofJson?_toJson]
    rfl
  | call line callee paren arguments =>
    rw [toJson, treeJson, ofJson?, callee.ofJson?_toJson, Token.ofJson?_toJson,
      ofJsons?_toJsons arguments]
    rfl

theorem ofJsons?_toJsons (trees : List Expr) : ofJsons? (toJsons trees) = some trees := by
  cases trees with
  | nil => rw [toJsons, ofJsons?]
  | cons tree rest =>
    rw [toJsons, ofJsons?, tree.ofJson?_toJson, ofJsons?_toJsons rest]
    rfl

end

end Expr

namespace Stmt

mutual

/-- The statement that is saved as a value. A branch that is missing is saved as null. -/
def ofJson? (value : JsonValue) : Option Stmt :=
  match value with
  | .object (("line", .integer line) :: ("node_type", .string kind) :: parts) =>
    match kind, parts with
    | "block", [("statements", .array statements)] => do
      return block line (← ofJsons? statements)
    | "expression", [("expression", value)] => do return expression line (← Expr.ofJson? value)
    | "print", [("expression", value)] => do return print line (← Expr.ofJson? value)
    | "let", [("name", name), ("initializer", initializer)] => do
      return letBinding line (← Token.ofJson? name) (← Expr.ofJson? initializer)
    | "if", [("condition", condition), ("then_branch", thenBranch), ("else_branch", .null)] => do
      return ifThen line (← Expr.ofJson? condition) (← ofJson? thenBranch)
    | "if", [("condition", condition), ("then_branch", thenBranch),
        ("else_branch", elseBranch)] => do
      return ifElse line (← Expr.ofJson? condition) (← ofJson? thenBranch) (← ofJson? elseBranch)
    | "while", [("condition", condition), ("body", body)] => do
      return whileLoop line (← Expr.ofJson? condition) (← ofJson? body)
    | "function", [("name", name), ("params", .array params),
        ("body", .object [("line", .integer bodyLine), ("node_type", .string "block"),
          ("statements", .array body)])] => do
      return function line (← Token.ofJson? name) (← params.mapM Token.ofJson?) bodyLine
        (← ofJsons? body)
    | _, _ => none
  | _ => none

def ofJsons? : List JsonValue → Option (List Stmt)
  | [] => some []
  | value :: rest => do return (← ofJson? value) :: (← ofJsons? rest)

end

theorem toJson_ne_null (tree : Stmt) : tree.toJson ≠ .null := by
  cases tree <;> exact JsonValue.noConfusion

mutual

theorem ofJson?_toJson (tree : Stmt) : ofJson? tree.toJson = some tree := by
  cases tree with
  | block line statements =>
    rw [toJson, treeJson, ofJson?, ofJsons?_toJsons statements]
    rfl
  | expression line value | print line value =>
    rw [toJson, treeJson, ofJson?, value.ofJson?_toJson]
    rfl
  | letBinding line name initializer =>
    rw [toJson, treeJson, ofJson?, Token.ofJson?_toJson, initializer.ofJson?_toJson]
    rfl
  | ifThen line condition thenBranch =>
    rw [toJson, treeJson, ofJson?, condition.ofJson?_toJson, thenBranch.ofJson?_toJson]
    rfl
  | ifElse line condition thenBranch elseBranch =>
    rw [toJson, treeJson, ofJson?, condition.ofJson?_toJson, thenBranch.ofJson?_toJson,
      elseBranch.ofJson?_toJson]
    · rfl
    · exact elseBranch.toJson_ne_null
  | whileLoop line condition body =>
    rw [toJson, treeJson, ofJson?, condition.ofJson?_toJson, body.ofJson?_toJson]
    rfl
  | function line name params bodyLine body =>
    rw [toJson, treeJson, treeJson, ofJson?, Token.ofJson?_toJson, Token.mapM_ofJson?,
      ofJsons?_toJsons body]
    rfl

theorem ofJsons?_toJsons (trees : List Stmt) : ofJsons? (toJsons trees) = some trees := by
  cases trees with
  | nil => rw [toJsons, ofJsons?]
  | cons tree rest =>
    rw [toJsons, ofJsons?, tree.ofJson?_toJson, ofJsons?_toJsons rest]
    rfl

end

end Stmt

namespace Artifact

def stage : Artifact → Stage
  | tokens _ => .tokens
  | ast _ => .ast

def ofJson? : Stage → JsonValue → Option Artifact
  | .tokens, .array items => do return tokens (← items.mapM Token.ofJson?)
  | .ast, .array items => do return ast (← Stmt.ofJsons? items)
  | _, _ => none

theorem ofJson?_toJson (artifact : Artifact) :
    ofJson? artifact.stage artifact.toJson = some artifact := by
  cases artifact with
  | tokens all =>
    rw [toJson, stage, ofJson?, Token.mapM_ofJson?]
    rfl
  | ast statements =>
    rw [toJson, stage, ofJson?, Stmt.ofJsons?_toJsons]
    rfl

end Artifact

end ScriptLang
