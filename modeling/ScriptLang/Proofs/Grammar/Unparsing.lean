import ScriptLang.Proofs.Grammar.Parsing

namespace ScriptLang

def Literal.kind : Literal → TokenKind
  | null => .nullWord
  | bool true => .trueWord
  | bool false => .falseWord
  | number _ => .number
  | string _ => .string

namespace TokenKind

/-- How loosely an operator joins its operands, from one up to six, and zero for other tokens. -/
def rank : TokenKind → Nat
  | orWord => 1
  | andWord => 2
  | bangEqual | equalEqual => 3
  | greater | greaterEqual | less | lessEqual => 4
  | minus | plus => 5
  | slash | star | percent => 6
  | _ => 0

end TokenKind

namespace Expr

/-- How tightly an expression binds: an assignment least, then the six levels of operators, prefix
operators, calls, and all others most. -/
def rank : Expr → Nat
  | assign .. => 0
  | binary _ _ operator _ | logical _ _ operator _ => operator.kind.rank
  | unary .. => 7
  | call .. => 8
  | literal .. | grouping .. | name .. => 9

/-- The trees of expressions that can be written back. -/
inductive Canonical : Expr → Prop
  | literal (line : Int) (value : Literal) : Canonical (.literal line value)
  | grouping (line : Int) {inner : Expr} (h : Canonical inner) : Canonical (.grouping line inner)
  | unary {line : Int} {operator : Token} {right : Expr} (hl : line = operator.line)
    (ho : operator.kind = .bang ∨ operator.kind = .minus) (hr : 7 ≤ right.rank)
    (h : Canonical right) : Canonical (.unary line operator right)
  | binary {line : Int} {left right : Expr} {operator : Token} (hl : line = left.line)
    (ho : 3 ≤ operator.kind.rank) (hleft : operator.kind.rank ≤ left.rank)
    (hright : operator.kind.rank < right.rank) (h : Canonical left) (h' : Canonical right) :
    Canonical (.binary line left operator right)
  | logical {line : Int} {left right : Expr} {operator : Token} (hl : line = left.line)
    (ho : operator.kind = .orWord ∨ operator.kind = .andWord)
    (hleft : operator.kind.rank ≤ left.rank) (hright : operator.kind.rank < right.rank)
    (h : Canonical left) (h' : Canonical right) : Canonical (.logical line left operator right)
  | name {line : Int} {token : Token} (hl : line = token.line) (hk : token.kind = .identifier) :
    Canonical (.name line token)
  | assign {line : Int} {target : Token} {value : Expr} (hl : line = target.line)
    (hk : target.kind = .identifier) (h : Canonical value) : Canonical (.assign line target value)
  | call {line : Int} {callee : Expr} {paren : Token} {arguments : List Expr}
    (hl : line = callee.line) (hc : 8 ≤ callee.rank) (hp : paren.kind = .rightParen)
    (ha : arguments.length ≤ 255) (h : Canonical callee) (h' : ∀ tree ∈ arguments, Canonical tree) :
    Canonical (.call line callee paren arguments)

end Expr

namespace Stmt

/-- Whether a statement declares a variable or a function, and so can be no branch or loop body. -/
def isDeclaration : Stmt → Bool
  | letBinding .. | function .. => true
  | _ => false

/-- The trees of statements that can be written back. -/
inductive Canonical : Stmt → Prop
  | block (line : Int) {statements : List Stmt} (h : ∀ tree ∈ statements, Canonical tree) :
    Canonical (.block line statements)
  | expression {line : Int} {value : Expr} (hl : line = value.line) (h : value.Canonical) :
    Canonical (.expression line value)
  | print (line : Int) {value : Expr} (h : value.Canonical) : Canonical (.print line value)
  | letBinding (line : Int) {name : Token} {initializer : Expr} (hk : name.kind = .identifier)
    (h : initializer.Canonical) : Canonical (.letBinding line name initializer)
  | ifThen (line : Int) {condition : Expr} {thenBranch : Stmt} (hc : condition.Canonical)
    (hb : thenBranch.isDeclaration = false) (ht : Canonical thenBranch) :
    Canonical (.ifThen line condition thenBranch)
  | ifElse (line : Int) {condition : Expr} {thenBranch elseBranch : Stmt}
    (hc : condition.Canonical) (hb : thenBranch.isDeclaration = false)
    (hd : thenBranch.dangling = false) (ht : Canonical thenBranch)
    (hb' : elseBranch.isDeclaration = false) (he : Canonical elseBranch) :
    Canonical (.ifElse line condition thenBranch elseBranch)
  | whileLoop (line : Int) {condition : Expr} {body : Stmt} (hc : condition.Canonical)
    (hb : body.isDeclaration = false) (h : Canonical body) :
    Canonical (.whileLoop line condition body)
  | function (line : Int) {name : Token} {params : List Token} (bodyLine : Int) {body : List Stmt}
    (hk : name.kind = .identifier) (hp : ∀ param ∈ params, param.kind = .identifier)
    (ha : params.length ≤ 255) (h : ∀ tree ∈ body, Canonical tree) :
    Canonical (.function line name params bodyLine body)

end Stmt

section Flattening

variable (lexeme : TokenKind → Literal → String)

/-- A token that a tree does not keep, with some lexeme. -/
def written (kind : TokenKind) (literal : Literal) (line : Int) : Token :=
  ⟨kind, lexeme kind literal, literal, line⟩

@[simp] theorem written_kind (kind : TokenKind) {literal : Literal} (line : Int) :
    (written lexeme kind literal line).kind = kind := rfl

mutual

/-- The tokens that an expression is written as. -/
def Expr.flatten : Expr → List Token
  | literal line value => [written lexeme value.kind value line]
  | grouping line inner =>
    written lexeme .leftParen .null line ::
      (inner.flatten ++ [written lexeme .rightParen .null line])
  | unary _ operator right => operator :: right.flatten
  | binary _ left operator right | logical _ left operator right =>
    left.flatten ++ operator :: right.flatten
  | name _ token => [token]
  | assign line target value => target :: written lexeme .equal .null line :: value.flatten
  | call line callee paren arguments =>
    callee.flatten ++ written lexeme .leftParen .null line ::
      (flattenArguments line arguments ++ [paren])

def Expr.flattenArguments (line : Int) : List Expr → List Token
  | [] => []
  | tree :: rest => tree.flatten ++ flattenMore line rest

def Expr.flattenMore (line : Int) : List Expr → List Token
  | [] => []
  | tree :: rest => written lexeme .comma .null line :: (tree.flatten ++ flattenMore line rest)

end

def flattenNames (line : Int) : List Token → List Token
  | [] => []
  | name :: rest => name :: rest.flatMap fun name => [written lexeme .comma .null line, name]

mutual

def Stmt.flatten : Stmt → List Token
  | block line statements =>
    written lexeme .leftBrace .null line ::
      (flattenAll statements ++ [written lexeme .rightBrace .null line])
  | expression line value => value.flatten lexeme ++ [written lexeme .semicolon .null line]
  | print line value =>
    written lexeme .printWord .null line ::
      (value.flatten lexeme ++ [written lexeme .semicolon .null line])
  | letBinding line name initializer =>
    written lexeme .letWord .null line :: name :: written lexeme .equal .null line ::
      (initializer.flatten lexeme ++ [written lexeme .semicolon .null line])
  | ifThen line condition thenBranch =>
    written lexeme .ifWord .null line :: written lexeme .leftParen .null line ::
      (condition.flatten lexeme ++ written lexeme .rightParen .null line :: thenBranch.flatten)
  | ifElse line condition thenBranch elseBranch =>
    written lexeme .ifWord .null line :: written lexeme .leftParen .null line ::
      (condition.flatten lexeme ++ written lexeme .rightParen .null line ::
        (thenBranch.flatten ++ written lexeme .elseWord .null line :: elseBranch.flatten))
  | whileLoop line condition body =>
    written lexeme .whileWord .null line :: written lexeme .leftParen .null line ::
      (condition.flatten lexeme ++ written lexeme .rightParen .null line :: body.flatten)
  | function line name params bodyLine body =>
    written lexeme .fnWord .null line :: name :: written lexeme .leftParen .null line ::
      (flattenNames lexeme line params ++ written lexeme .rightParen .null line ::
        written lexeme .leftBrace .null bodyLine ::
          (flattenAll body ++ [written lexeme .rightBrace .null bodyLine]))

def Stmt.flattenAll : List Stmt → List Token
  | [] => []
  | tree :: rest => tree.flatten ++ flattenAll rest

end

end Flattening

namespace Grammar

section Loosening

def Tier.ofRank : Nat → Tier
  | 0 => assignment
  | 1 => binary .disjunction
  | 2 => binary .conjunction
  | 3 => binary .equality
  | 4 => binary .comparison
  | 5 => binary .sum
  | 6 => binary .product
  | 7 => unary
  | 8 => call
  | _ => primary

variable {start : Nat} {ts us : List Token} {errors errors' : List SyntaxError} {tree : Expr}

/-- What binds tightly may stand where less is asked for. -/
theorem Spells.loosen {rank rank' : Nat} (hle : rank ≤ rank')
    (h : Spells (.expr (Tier.ofRank rank') tree) start ts errors) :
    Spells (.expr (Tier.ofRank rank) tree) start ts errors := by
  -- one tier at a time, from the tighter one down
  induction hle with
  | refl => exact h
  | @step rank' _ ih =>
    apply ih
    match rank' with
    | 0 => exact .operation h
    | 1 => exact h.of_operand .disjunction
    | 2 => exact h.of_operand .conjunction
    | 3 => exact h.of_operand .equality
    | 4 => exact h.of_operand .comparison
    | 5 => exact h.of_operand .sum
    | 6 => exact h.of_operand .product
    | 7 => exact .unaryOfCall h
    | 8 => exact h.of_primary
    | _ + 9 => exact h

end Loosening

section Chains

variable {start : Nat} {ts us : List Token} {errors errors' : List SyntaxError}

/-- One more operator and operand after others of the same level. -/
theorem Spells.operands_snoc {level : Level} {left result right : Expr} {operator : Token}
    (ho : operator.kind ∈ level.operators)
    (h : Spells (.operands level left result) start ts errors)
    (hr : Spells (.expr level.operandTier right) (start + ts.length + 1) us errors') :
    Spells (.operands level left (level.join result operator right)) start (ts ++ operator :: us)
      (errors ++ errors') := by
  -- operands are joined from the left, so the chain grows at the end that its spelling hides
  generalize hphrase : Phrase.operands level left result = phrase at h
  induction h generalizing left with
  | lastOperand start level' left' =>
    cases hphrase
    have hnext := Spells.nextOperand ho hr (.lastOperand _ level (level.join result operator right))
    rwa [List.append_nil, List.append_nil] at hnext
  | @nextOperand start level' other vs ws left' middle result' before later ho' hm _ _ ih =>
    cases hphrase
    have hlength : start + (other :: (vs ++ ws)).length + 1 =
        start + 1 + vs.length + ws.length + 1 := by
      rw [List.length_cons, List.length_append]
      omega
    rw [hlength] at hr
    have hnext := Spells.nextOperand ho' hm (ih hr rfl)
    rwa [← List.append_assoc vs, ← List.cons_append, ← List.append_assoc before] at hnext
  | _ => cases hphrase

/-- One more argument list after others. -/
theorem Spells.calls_snoc {callee result : Expr} {opening paren : Token} {arguments : List Expr}
    (ho : opening.kind = .leftParen) (hp : paren.kind = .rightParen)
    (h : Spells (.calls callee result) start ts errors)
    (ha : Spells (.arguments arguments) (start + ts.length + 1) us errors') :
    Spells (.calls callee (.call result.line result paren arguments)) start
      (ts ++ opening :: (us ++ [paren])) (errors ++ errors') := by
  generalize hphrase : Phrase.calls callee result = phrase at h
  induction h generalizing callee with
  | noCalls start callee' =>
    cases hphrase
    have hcall := Spells.oneCall ho ha hp (.noCalls _ (.call result.line result paren arguments))
    rwa [List.append_nil] at hcall
  | @oneCall start other closing vs ws callee' arguments' result' before later ho' ha' hp' _ _ ih =>
    cases hphrase
    have hlength : start + (other :: (vs ++ closing :: ws)).length + 1 =
        start + 1 + (vs.length + 1) + ws.length + 1 := by
      rw [List.length_cons, List.length_append, List.length_cons]
      omega
    rw [hlength] at ha
    have hcall := Spells.oneCall ho' ha' hp' (ih ha rfl)
    simpa using hcall
  | _ => cases hphrase

/-- An operation is joined to one more operand by an operator of its level. -/
theorem Spells.join {level : Level} {left right : Expr} {operator : Token}
    (ho : operator.kind ∈ level.operators)
    (hl : Spells (.expr (.binary level) left) start ts [])
    (hr : Spells (.expr level.operandTier right) (start + ts.length + 1) us []) :
    Spells (.expr (.binary level) (level.join left operator right)) start (ts ++ operator :: us)
      [] := by
  generalize herrors : ([] : List SyntaxError) = errors at hl
  cases hl with
  | @binary _ _ vs ws first _ before later hf hm =>
    have hlength : start + (vs ++ ws).length + 1 = start + vs.length + ws.length + 1 := by
      rw [List.length_append]
      omega
    rw [hlength] at hr
    obtain ⟨rfl, rfl⟩ := List.append_eq_nil_iff.mp herrors.symm
    have hjoin := Spells.binary hf (hm.operands_snoc ho hr)
    rwa [← List.append_assoc] at hjoin

/-- A call may be called again. -/
theorem Spells.callAgain {callee : Expr} {opening paren : Token} {arguments : List Expr}
    (ho : opening.kind = .leftParen) (hp : paren.kind = .rightParen)
    (hc : Spells (.expr .call callee) start ts [])
    (ha : Spells (.arguments arguments) (start + ts.length + 1) us []) :
    Spells (.expr .call (.call callee.line callee paren arguments)) start
      (ts ++ opening :: (us ++ [paren])) [] := by
  generalize herrors : ([] : List SyntaxError) = errors at hc
  cases hc with
  | @call _ vs ws first _ before later hf hm =>
    have hlength : start + (vs ++ ws).length + 1 = start + vs.length + ws.length + 1 := by
      rw [List.length_append]
      omega
    rw [hlength] at ha
    obtain ⟨rfl, rfl⟩ := List.append_eq_nil_iff.mp herrors.symm
    have hcall := Spells.call hf (hm.calls_snoc ho hp ha)
    rwa [← List.append_assoc] at hcall

end Chains

section Expressions

def Level.rank : Level → Nat
  | disjunction => 1
  | conjunction => 2
  | equality => 3
  | comparison => 4
  | sum => 5
  | product => 6

theorem Tier.ofRank_level (level : Level) : ofRank level.rank = .binary level := by
  cases level <;> rfl

theorem Tier.ofRank_operand (level : Level) : ofRank (level.rank + 1) = level.operandTier := by
  cases level <;> rfl

/-- Every operator that joins two operands is of the level with its rank. -/
theorem exists_level {kind : TokenKind} (h : 0 < kind.rank) :
    ∃ level : Level, level.rank = kind.rank ∧ kind ∈ level.operators := by
  cases kind with
  | orWord => exact ⟨.disjunction, rfl, by decide⟩
  | andWord => exact ⟨.conjunction, rfl, by decide⟩
  | bangEqual | equalEqual => exact ⟨.equality, rfl, by decide⟩
  | greater | greaterEqual | less | lessEqual => exact ⟨.comparison, rfl, by decide⟩
  | minus | plus => exact ⟨.sum, rfl, by decide⟩
  | slash | star | percent => exact ⟨.product, rfl, by decide⟩
  | _ => exact absurd h (Nat.lt_irrefl 0)

theorem Level.join_eq_binary {level : Level} (h : 3 ≤ level.rank) (left : Expr) (operator : Token)
    (right : Expr) : level.join left operator right = .binary left.line left operator right := by
  cases level with
  | disjunction | conjunction => exact absurd h (by decide)
  | _ => rfl

theorem Level.join_eq_logical {level : Level} (h : level.rank < 3) (left : Expr) (operator : Token)
    (right : Expr) : level.join left operator right = .logical left.line left operator right := by
  cases level with
  | disjunction | conjunction => rfl
  | _ => exact absurd h (by decide)

variable {start : Nat}

/-- Operands that bind tightly enough are joined by the level of the operator between them. -/
theorem Spells.joinRanked {ts us : List Token} {left right : Expr} {operator : Token}
    (ho : 0 < operator.kind.rank) (hleft : operator.kind.rank ≤ left.rank)
    (hright : operator.kind.rank < right.rank)
    (hl : Spells (.expr (Tier.ofRank left.rank) left) start ts [])
    (hr : Spells (.expr (Tier.ofRank right.rank) right) (start + ts.length + 1) us []) :
    ∃ level : Level, level.rank = operator.kind.rank ∧
      Spells (.expr (Tier.ofRank operator.kind.rank) (level.join left operator right)) start
        (ts ++ operator :: us) [] := by
  obtain ⟨level, hrank, hmem⟩ := exists_level ho
  rw [← hrank] at hleft hright
  have hl' := hl.loosen hleft
  have hr' := hr.loosen hright
  rw [Tier.ofRank_level] at hl'
  rw [Nat.succ_eq_add_one, Tier.ofRank_operand] at hr'
  refine ⟨level, hrank, ?_⟩
  rw [← hrank, Tier.ofRank_level]
  exact Spells.join hmem hl' hr'

variable {lexeme : TokenKind → Literal → String}

theorem kind_mem_literalKinds (value : Literal) : value.kind ∈ literalKinds := by
  cases value with
  | bool value => cases value <;> decide
  | _ => simp [Literal.kind, literalKinds]

/-- A literal is spelled by the token that it is written as. -/
theorem spells_written (start : Nat) (line : Int) (value : Literal) :
    Spells (.expr .primary (.literal line value)) start
      [written lexeme value.kind value line] [] := by
  have hvalue : (written lexeme value.kind value line).value = value := by
    cases value with
    | bool value => cases value <;> rfl
    | _ => rfl
  have hkind : (written lexeme value.kind value line).kind ∈ literalKinds :=
    kind_mem_literalKinds value
  have hliteral := Spells.literal start hkind
  rwa [hvalue] at hliteral

/-- Arguments that were written with commas before them are added to those read before. -/
theorem spells_flattenMore (line : Int) {rest : List Expr}
    (h : ∀ tree ∈ rest, ∀ start,
      Spells (.expr .assignment tree) start (tree.flatten lexeme) []) (read : List Expr)
    (hlength : read.length + rest.length ≤ 255) (start : Nat) :
    Spells (.moreArguments read (read ++ rest)) start (Expr.flattenMore lexeme line rest) [] := by
  induction rest generalizing read start with
  | nil =>
    rw [List.append_nil]
    exact .lastArgument start read
  | cons tree rest ih =>
    rw [List.length_cons] at hlength
    have htree := h tree (List.mem_cons_self ..) (start + 1)
    have hrest := ih (fun other hmem => h other (List.mem_cons_of_mem _ hmem)) (read ++ [tree])
      (by rw [List.length_append, List.length_singleton]; omega)
      (start + 1 + (tree.flatten lexeme).length)
    rw [List.append_assoc, List.singleton_append] at hrest
    have hfew : read.length < maxArguments := by
      unfold maxArguments
      omega
    exact .nextArgument_of_lt hfew (written_kind lexeme .comma line) htree hrest

theorem spells_flattenArguments (line : Int) {trees : List Expr}
    (h : ∀ tree ∈ trees, ∀ start,
      Spells (.expr .assignment tree) start (tree.flatten lexeme) [])
    (hlength : trees.length ≤ 255) (start : Nat) :
    Spells (.arguments trees) start (Expr.flattenArguments lexeme line trees) [] := by
  cases trees with
  | nil => exact .noArguments start
  | cons tree rest =>
    have htree := h tree (List.mem_cons_self ..) start
    have hlength' : [tree].length + rest.length ≤ 255 := by
      rw [List.length_singleton, Nat.add_comm]
      exact hlength
    have hrest := spells_flattenMore line (fun other hmem => h other (List.mem_cons_of_mem _ hmem))
      [tree] hlength' (start + (tree.flatten lexeme).length)
    exact .someArguments htree hrest

/-- A canonical expression is spelled by what it is written as. -/
theorem spells_flatten {tree : Expr} (h : tree.Canonical) (start : Nat) :
    Spells (.expr (Tier.ofRank tree.rank) tree) start (tree.flatten lexeme) [] := by
  induction h generalizing start with
  | literal line value => exact spells_written start line value
  | @grouping line inner _ ih =>
    have hinner := (ih (start + 1)).loosen (Nat.zero_le _)
    exact .grouping (written_kind lexeme .leftParen line) hinner
      (written_kind lexeme .rightParen line)
  | @unary line operator right hl ho hr _ ih =>
    subst hl
    have hmem : operator.kind ∈ prefixOperators := by
      obtain hk | hk := ho <;> rw [hk] <;> decide
    exact .unary hmem ((ih (start + 1)).loosen hr)
  | @binary line left right operator hl ho hleft hright _ _ ihl ihr =>
    subst hl
    -- the operator is of a level, whose operands bind tightly enough on both sides
    have hpos : 0 < operator.kind.rank := Nat.lt_of_lt_of_le (by decide) ho
    obtain ⟨level, hrank, hspells⟩ := Spells.joinRanked hpos hleft hright (ihl start) (ihr _)
    rwa [Level.join_eq_binary (hrank ▸ ho)] at hspells
  | @logical line left right operator hl ho hleft hright _ _ ihl ihr =>
    subst hl
    have hrange : 0 < operator.kind.rank ∧ operator.kind.rank < 3 := by
      obtain hk | hk := ho <;> rw [hk] <;> decide
    obtain ⟨level, hrank, hspells⟩ :=
      Spells.joinRanked hrange.1 hleft hright (ihl start) (ihr _)
    rwa [Level.join_eq_logical (hrank ▸ hrange.2)] at hspells
  | name hl hk =>
    subst hl
    exact .name start hk
  | @assign line target value hl hk _ ih =>
    subst hl
    have hvalue := (ih (start + 1 + 1)).loosen (Nat.zero_le _)
    exact .assignment (spells_name start hk) (written_kind lexeme .equal target.line) hvalue
  | @call line callee paren arguments hl hc hp ha _ _ ihc iha =>
    subst hl
    have harguments := spells_flattenArguments callee.line
      (fun tree hmem start => (iha tree hmem start).loosen (Nat.zero_le _)) ha
    exact Spells.callAgain (written_kind lexeme .leftParen callee.line) hp
      ((ihc start).loosen hc) (harguments _)

end Expressions

section Statements

variable {lexeme : TokenKind → Literal → String}

/-- Parameters that were written with commas before them are added to those read before. -/
theorem spells_commaNames (line : Int) {rest : List Token}
    (h : ∀ name ∈ rest, name.kind = .identifier) (read : List Token)
    (hlength : read.length + rest.length ≤ 255) (start : Nat) :
    SpellsMoreNames read (read ++ rest) start
      (rest.flatMap fun name => [written lexeme .comma .null line, name]) [] := by
  induction rest generalizing read start with
  | nil =>
    rw [List.append_nil]
    exact .last start read
  | cons name rest ih =>
    rw [List.length_cons] at hlength
    have hrest := ih (fun other hmem => h other (List.mem_cons_of_mem _ hmem)) (read ++ [name])
      (by rw [List.length_append, List.length_singleton]; omega) (start + 2)
    rw [List.append_assoc, List.singleton_append] at hrest
    have hfew : read.length < maxArguments := by
      unfold maxArguments
      omega
    exact .next_of_lt hfew (written_kind lexeme .comma line) (h name (List.mem_cons_self ..)) hrest

theorem spells_flattenNames (line : Int) {names : List Token}
    (h : ∀ name ∈ names, name.kind = .identifier) (hlength : names.length ≤ 255) (start : Nat) :
    SpellsNames names start (flattenNames lexeme line names) [] := by
  cases names with
  | nil => exact .none start
  | cons name rest =>
    have hlength' : [name].length + rest.length ≤ 255 := by
      rw [List.length_singleton, Nat.add_comm]
      exact hlength
    exact .some (h name (List.mem_cons_self ..))
      (spells_commaNames line (fun other hmem => h other (List.mem_cons_of_mem _ hmem)) [name]
        hlength' (start + 1))

/-- The clause of a statement, which is a declaration only where it must be. -/
def Clause.ofStmt (tree : Stmt) : Clause :=
  if tree.isDeclaration then .declaration tree else .statement tree

theorem Clause.ofStmt_statement {tree : Stmt} (h : tree.isDeclaration = false) :
    ofStmt tree = .statement tree := by
  rw [ofStmt, h]
  rfl

/-- Every statement may stand where a declaration is asked for. -/
theorem Forms.declaration_of_clause {tree : Stmt} {start : Nat} {ts : List Token}
    {errors : List SyntaxError} {skipped : List Span}
    (h : Forms .none (Clause.ofStmt tree) start ts errors skipped) :
    Forms .none (.declaration tree) start ts errors skipped := by
  unfold Clause.ofStmt at h
  split at h
  · exact h
  · exact .statement h

theorem forms_flattenAll {trees : List Stmt}
    (h : ∀ tree ∈ trees, ∀ start,
      Forms .none (Clause.ofStmt tree) start (tree.flatten lexeme) [] []) (start : Nat) :
    Forms .none (.sequence trees) start (Stmt.flattenAll lexeme trees) [] [] := by
  induction trees generalizing start with
  | nil => exact .nil start
  | cons tree trees ih =>
    have htree := (h tree (List.mem_cons_self ..) start).declaration_of_clause
    exact .cons htree (ih (fun other hmem => h other (List.mem_cons_of_mem _ hmem)) _)

/-- A canonical expression is spelled, as a whole, by what it is written as. -/
theorem spells_whole {tree : Expr} (h : tree.Canonical) (start : Nat) :
    Spells (.expr .assignment tree) start (tree.flatten lexeme) [] :=
  (spells_flatten h start).loosen (Nat.zero_le _)

/-- A canonical statement is formed by what it is written as. -/
theorem forms_flatten {tree : Stmt} (h : tree.Canonical) (start : Nat) :
    Forms .none (Clause.ofStmt tree) start (tree.flatten lexeme) [] [] := by
  have hwritten := written_kind lexeme
  induction h generalizing start with
  | block line _ ih =>
    have hbody := forms_flattenAll ih (start + 1)
    exact .block (hwritten .leftBrace line) (.body hbody) (hwritten .rightBrace line)
  | @expression line value hl hv =>
    subst hl
    exact .expression (spells_whole hv start) (hwritten .semicolon value.line)
  | print line hv =>
    exact .print (hwritten .printWord line) (spells_whole hv _) (hwritten .semicolon line)
  | letBinding line hk hv =>
    exact .letBinding (hwritten .letWord line) hk (hwritten .equal line) (spells_whole hv _)
      (hwritten .semicolon line)
  | ifThen line hc hb _ ih =>
    rw [Clause.ofStmt_statement hb] at ih
    exact .ifThen (hwritten .ifWord line) (hwritten .leftParen line) (spells_whole hc _)
      (hwritten .rightParen line) (ih _)
  | ifElse line hc hb hd _ hb' _ iht ihe =>
    -- branches declare nothing, so they are statements and no declarations
    rw [Clause.ofStmt_statement hb] at iht
    rw [Clause.ofStmt_statement hb'] at ihe
    exact .ifElse (hwritten .ifWord line) (hwritten .leftParen line) (spells_whole hc _)
      (hwritten .rightParen line) (iht _) hd (hwritten .elseWord line) (ihe _)
  | whileLoop line hc hb _ ih =>
    rw [Clause.ofStmt_statement hb] at ih
    exact .whileLoop (hwritten .whileWord line) (hwritten .leftParen line) (spells_whole hc _)
      (hwritten .rightParen line) (ih _)
  | function line bodyLine hk hp ha _ ih =>
    exact .function (hwritten .fnWord line) hk (hwritten .leftParen line)
      (spells_flattenNames line hp ha _) (hwritten .rightParen line) (hwritten .leftBrace bodyLine)
      (.body (forms_flattenAll ih _)) (hwritten .rightBrace bodyLine)

end Statements

/-- Parsing undoes writing: what canonical statements are written as, up to an end mark, is parsed
as the same statements, and no error is recorded. -/
theorem parse_flattenAll (lexeme : TokenKind → Literal → String) {trees : List Stmt}
    (h : ∀ tree ∈ trees, tree.Canonical) {mark : Token} (hmark : mark.kind = .eof)
    (later : List Token) :
    parse (Stmt.flattenAll lexeme trees ++ mark :: later) =
      ⟨.done trees, ⟨(Stmt.flattenAll lexeme trees).length, mark :: later, 0⟩, []⟩ := by
  have hforms : Forms .none (.sequence trees) 0 (Stmt.flattenAll lexeme trees) [] [] :=
    forms_flattenAll (fun tree hmem => forms_flatten (h tree hmem)) 0
  obtain ⟨recorded, haccounts, hparse⟩ :=
    parse_of_forms Pieces.skipped_none hforms hmark later
  rwa [haccounts.exact rfl] at hparse

def signedDifference : Stmt :=
  .expression 1 (.assign 1 (bareToken .identifier "a") (.binary 1
    (.name 1 (bareToken .identifier "b")) (bareToken .minus "-")
    (.unary 1 (bareToken .minus "-") (.name 1 (bareToken .identifier "c")))))

theorem parse_signedDifference :
    (∀ tree ∈ [signedDifference], tree.Canonical) ∧
      parse [bareToken .identifier "a", bareToken .equal "=", bareToken .identifier "b",
        bareToken .minus "-", bareToken .minus "-", bareToken .identifier "c",
        bareToken .semicolon ";", Token.endMark 1] =
      ⟨.done [signedDifference], ⟨7, [Token.endMark 1], 0⟩, []⟩ := by
  have hnegated : (Expr.unary 1 (bareToken .minus "-")
      (.name 1 (bareToken .identifier "c"))).Canonical :=
    .unary rfl (.inr rfl) (by decide) (.name rfl rfl)
  have hcanonical : ∀ tree ∈ [signedDifference], tree.Canonical := by
    intro tree hmem
    obtain rfl := List.mem_singleton.mp hmem
    exact .expression rfl (.assign rfl rfl
      (.binary rfl (by decide) (by decide) (by decide) (.name rfl rfl) hnegated))
  exact ⟨hcanonical,
    parse_flattenAll (fun kind _ => if kind = .equal then "=" else ";") hcanonical rfl []⟩

end Grammar

end ScriptLang
