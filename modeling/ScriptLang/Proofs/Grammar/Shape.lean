import ScriptLang.Proofs.Grammar.Unparsing

namespace ScriptLang

/-- Expressions of the grammar's shape. As an assignment binds least of all, it is no operand and no
callee. -/
inductive Expr.Shaped : Expr → Prop
  | literal (line : Int) (value : Literal) : Shaped (.literal line value)
  | name (line : Int) (token : Token) : Shaped (.name line token)
  | grouping (line : Int) {inner : Expr} (h : Shaped inner) : Shaped (.grouping line inner)
  | unary (line : Int) {operator : Token} {right : Expr}
    (ho : operator.kind = .bang ∨ operator.kind = .minus) (hr : 7 ≤ right.rank) (h : Shaped right) :
    Shaped (.unary line operator right)
  | binary (line : Int) {left right : Expr} {operator : Token} (ho : 3 ≤ operator.kind.rank)
    (hleft : operator.kind.rank ≤ left.rank) (hright : operator.kind.rank < right.rank)
    (h : Shaped left) (h' : Shaped right) : Shaped (.binary line left operator right)
  | logical (line : Int) {left right : Expr} {operator : Token}
    (ho : operator.kind = .orWord ∨ operator.kind = .andWord)
    (hleft : operator.kind.rank ≤ left.rank) (hright : operator.kind.rank < right.rank)
    (h : Shaped left) (h' : Shaped right) : Shaped (.logical line left operator right)
  | assign (line : Int) (target : Token) {value : Expr} (h : Shaped value) :
    Shaped (.assign line target value)
  | call (line : Int) {callee : Expr} (paren : Token) {arguments : List Expr}
    (hc : 8 ≤ callee.rank) (h : Shaped callee) (h' : ∀ tree ∈ arguments, Shaped tree) :
    Shaped (.call line callee paren arguments)

inductive Stmt.Shaped : Stmt → Prop
  | block (line : Int) {statements : List Stmt} (h : ∀ tree ∈ statements, Shaped tree) :
    Shaped (.block line statements)
  | expression (line : Int) {value : Expr} (h : value.Shaped) : Shaped (.expression line value)
  | print (line : Int) {value : Expr} (h : value.Shaped) : Shaped (.print line value)
  | letBinding (line : Int) (name : Token) {initializer : Expr} (h : initializer.Shaped) :
    Shaped (.letBinding line name initializer)
  | ifThen (line : Int) {condition : Expr} {thenBranch : Stmt} (hc : condition.Shaped)
    (hb : thenBranch.isDeclaration = false) (ht : Shaped thenBranch) :
    Shaped (.ifThen line condition thenBranch)
  | ifElse (line : Int) {condition : Expr} {thenBranch elseBranch : Stmt} (hc : condition.Shaped)
    (hb : thenBranch.isDeclaration = false) (hd : thenBranch.dangling = false)
    (ht : Shaped thenBranch) (hb' : elseBranch.isDeclaration = false) (he : Shaped elseBranch) :
    Shaped (.ifElse line condition thenBranch elseBranch)
  | whileLoop (line : Int) {condition : Expr} {body : Stmt} (hc : condition.Shaped)
    (hb : body.isDeclaration = false) (h : Shaped body) : Shaped (.whileLoop line condition body)
  | function (line : Int) (name : Token) (params : List Token) (bodyLine : Int) {body : List Stmt}
    (h : ∀ tree ∈ body, Shaped tree) : Shaped (.function line name params bodyLine body)

namespace Grammar

open Rule

section Expressions

def Tier.rank : Tier → Nat
  | assignment => 0
  | binary level => level.rank
  | unary => 7
  | call => 8
  | primary => 9

theorem Level.rank_operandTier (level : Level) : level.operandTier.rank = level.rank + 1 := by
  cases level <;> rfl

theorem Level.rank_of_mem_operators {level : Level} {kind : TokenKind}
    (h : kind ∈ level.operators) : kind.rank = level.rank := by
  have hall : ∀ kind ∈ level.operators, kind.rank = level.rank := by
    cases level <;> decide
  exact hall kind h

/-- An operator of a level joins an operand of that level to a tighter one. -/
theorem shaped_join {level : Level} {left right : Expr} {operator : Token}
    (ho : operator.kind ∈ level.operators) (hl : left.Shaped) (hleft : level.rank ≤ left.rank)
    (hr : right.Shaped) (hright : level.rank < right.rank) :
    (level.join left operator right).Shaped ∧
      (level.join left operator right).rank = level.rank := by
  have hrank := Level.rank_of_mem_operators ho
  rw [← hrank] at hleft hright
  by_cases hlevel : 3 ≤ level.rank
  · rw [Level.join_eq_binary hlevel]
    exact ⟨.binary _ (hrank ▸ hlevel) hleft hright hl hr, hrank⟩
  · rw [Level.join_eq_logical (Nat.lt_of_not_le hlevel)]
    have hword : operator.kind = .orWord ∨ operator.kind = .andWord := by
      cases level with
      | disjunction => exact .inl (List.mem_singleton.mp ho)
      | conjunction => exact .inr (List.mem_singleton.mp ho)
      | _ => exact absurd (by decide) hlevel
    exact ⟨.logical _ hword hleft hright hl hr, hrank⟩

/-- What is known of the trees of a phrase. Of what a loop comes to, it is known only if it is known
of what was read before the loop. -/
def Phrase.Shaped : Phrase → Prop
  | expr tier tree => tree.Shaped ∧ tier.rank ≤ tree.rank
  | operands level left result =>
    left.Shaped → level.rank ≤ left.rank → result.Shaped ∧ level.rank ≤ result.rank
  | calls callee result => callee.Shaped → 8 ≤ callee.rank → result.Shaped ∧ 8 ≤ result.rank
  | arguments trees => ∀ tree ∈ trees, tree.Shaped
  | moreArguments read trees => (∀ tree ∈ read, tree.Shaped) → ∀ tree ∈ trees, tree.Shaped

/-- Whatever tokens spell is shaped, even where an error goes with it. -/
theorem Spells.shaped {phrase : Phrase} {start : Nat} {ts : List Token}
    {errors : List SyntaxError} (h : Spells phrase start ts errors) : phrase.Shaped := by
  induction h with
  | literal => exact ⟨.literal _ _, Nat.le_refl _⟩
  | name => exact ⟨.name _ _, Nat.le_refl _⟩
  | grouping _ _ _ ih => exact ⟨.grouping _ ih.1, Nat.le_refl _⟩
  | noCalls | lastOperand => exact fun h hrank => ⟨h, hrank⟩
  | oneCall _ _ _ _ iha ih =>
    intro hcallee hrank
    exact ih (.call _ _ hrank hcallee iha) (Nat.le_refl _)
  | call _ _ ihc ih => exact ih ihc.1 (Nat.le_of_succ_le ihc.2)
  | noArguments => exact fun tree hmem => absurd hmem List.not_mem_nil
  | someArguments _ _ ihf ih =>
    refine ih fun tree hmem => ?_
    obtain rfl := List.mem_singleton.mp hmem
    exact ihf.1
  | lastArgument => exact id
  | nextArgument _ _ _ iht ih =>
    intro hread
    refine ih (List.forall_mem_append.mpr ⟨hread, fun tree hmem => ?_⟩)
    obtain rfl := List.mem_singleton.mp hmem
    exact iht.1
  | unaryOfCall _ ih => exact ⟨ih.1, Nat.le_of_succ_le ih.2⟩
  | unary ho _ ih =>
    exact ⟨.unary _ (by simpa [prefixOperators] using ho) ih.2 ih.1, Nat.le_refl _⟩
  | @nextOperand _ level _ _ _ _ _ _ _ _ ho _ _ ihr ih =>
    intro hl hleft
    obtain ⟨hr, hright⟩ := ihr
    rw [Level.rank_operandTier] at hright
    -- what is joined is of the level again, so it may be the left operand of the next operator
    obtain ⟨hjoin, hrank⟩ := shaped_join ho hl hleft hr hright
    exact ih hjoin (Nat.le_of_eq hrank.symm)
  | @binary _ level _ _ _ _ _ _ _ _ ihf ih =>
    obtain ⟨hfirst, hrank⟩ := ihf
    rw [Level.rank_operandTier] at hrank
    exact ih hfirst (Nat.le_of_succ_le hrank)
  | operation _ ih | badAssignment _ _ _ _ ih => exact ⟨ih.1, Nat.zero_le _⟩
  | assignment _ _ _ _ ih => exact ⟨.assign _ _ ih.1, Nat.zero_le _⟩

end Expressions

section Statements

variable {n : Nat} {keyword : Token} {b : Rule (List Stmt)} {s : Rule Stmt}

/-- Shaped statements that may be branches, and that do not take an else after them. -/
def IsBranch : Outcome Stmt := fun tree _ _ rest _ =>
  tree.Shaped ∧ tree.isDeclaration = false ∧ (tree.dangling → NoElse rest)

def IsShaped : Outcome Stmt := fun tree _ _ _ _ => tree.Shaped

def AreShaped : Outcome (List Stmt) := fun trees _ _ _ _ => ∀ tree ∈ trees, tree.Shaped

theorem branch_expressionStatement : Yields n expressionStatement IsBranch := by
  refine (yields_terminated _ fun _ => rfl).imp ?_
  rintro result start ts rest errors ⟨inner, semicolon, value, -, -, rfl, hv⟩
  exact ⟨.expression _ hv.shaped.1, rfl, nofun⟩

theorem branch_printStatement : Yields n (printStatement keyword) IsBranch := by
  refine (yields_terminated _ fun _ => rfl).imp ?_
  rintro result middle ts rest errors ⟨inner, semicolon, value, -, -, rfl, hv⟩
  exact ⟨.print _ hv.shaped.1, rfl, nofun⟩

theorem shaped_letDeclaration : Yields n (letDeclaration keyword) IsShaped := by
  refine yields_expectNamed _ _ fun name _ => yields_expectNamed _ _ fun equals _ => ?_
  refine (yields_terminated _ fun _ => rfl).imp ?_
  rintro result _ ts rest errors ⟨inner, semicolon, value, -, -, rfl, hv⟩ _ _ _ _
  exact .letBinding _ _ hv.shaped.1

theorem branch_whileStatement (hs : Yields n s IsBranch) :
    Yields n (whileStatement s keyword) (Past IsBranch keyword) := by
  refine yields_condition _ _ fun condition => ?_
  refine hs.map (Stmt.whileLoop keyword.line condition) ?_
  rintro tree _ us rest errors' ⟨htree, hbranch, hnext⟩ opening ts closing errors start _ hc _ _
  exact ⟨.whileLoop _ hc.shaped.1 hbranch htree, rfl, hnext⟩

theorem branch_ifStatement (hs : Yields n s IsBranch) :
    Yields n (ifStatement s keyword) (Past IsBranch keyword) := by
  refine yields_condition _ _ fun condition => ?_
  refine hs.bind fun thenBranch => yields_accept? (fun word m hw hm => ?_) ?_
  · refine (hs.mono (Nat.le_of_lt hm)).map (Stmt.ifElse keyword.line condition thenBranch) ?_
    rintro elseBranch _ vs rest errors'' ⟨helse, hbranch', hnext'⟩ _ _ _ us errors' _
      ⟨hthen, hbranch, hnext⟩ opening ts closing errors start _ hc _ _
    -- a branch that dangles would have taken the else itself
    have hdangling : thenBranch.dangling = false := by
      by_contra hdangling
      exact hnext (by simpa using hdangling) word rfl (List.mem_singleton.mp hw)
    exact ⟨.ifElse _ hc.shaped.1 hbranch hdangling hthen hbranch' helse, rfl, hnext'⟩
  · refine yields_pure ?_
    rintro _ rest hmiss _ us errors' _ ⟨hthen, hbranch, -⟩ opening ts closing errors start _ hc _ _
    exact ⟨.ifThen _ hc.shaped.1 hbranch hthen, rfl, fun _ => Misses.noElse hmiss⟩

theorem branch_statementBlock (hb : Yields n b AreShaped) :
    Yields n (do return Stmt.block keyword.line (← b)) IsBranch :=
  hb.map (Stmt.block keyword.line) fun _ _ _ _ _ htrees => ⟨.block _ htrees, rfl, nofun⟩

theorem branch_statement (hb : ∀ m < n, Yields m (block declaration) AreShaped) :
    Yields n (statement (block declaration)) IsBranch := by
  induction n using Nat.strongRecOn with
  | ind n ih =>
    rw [statement_unfold]
    refine yields_accept? (fun token m _ hm => ?_) ?_
    · have hs := ih m hm fun k hk => hb k (Nat.lt_trans hk hm)
      dsimp only
      split
      · exact branch_printStatement.imp fun _ _ _ _ _ h _ _ => h
      · exact branch_ifStatement hs
      · exact branch_whileStatement hs
      · exact (branch_statementBlock (hb m hm)).imp fun _ _ _ _ _ h _ _ => h
    · exact branch_expressionStatement.imp fun _ _ _ _ _ h _ => h

theorem shaped_functionDeclaration (hb : Yields n (block declaration) AreShaped) :
    Yields n (functionDeclaration (block declaration) keyword) IsShaped := by
  refine yields_expectNamed _ _ fun name _ => yields_expectNamed _ _ fun opening _ => ?_
  refine yields_parameters.bind fun params => yields_expectNamed _ _ fun closing _ => ?_
  refine yields_expectNamed _ _ fun brace _ => ?_
  refine hb.map (Stmt.function keyword.line name params brace.line) ?_
  intro trees _ us rest errors' htrees _ _ _ _ _ ts errors _ _ _ _ _ _
  exact .function _ _ _ _ htrees

theorem shaped_attempt (hb : ∀ m < n, Yields m (block declaration) AreShaped) :
    Yields n attempt IsShaped := by
  refine yields_accept? (fun token m _ hm => ?_) ?_
  · dsimp only
    split
    · exact (shaped_functionDeclaration (hb m hm)).imp fun _ _ _ _ _ h _ _ => h
    · exact shaped_letDeclaration.imp fun _ _ _ _ _ h _ _ => h
  · exact (branch_statement hb).imp fun _ _ _ _ _ h _ => h.1

end Statements

section Lists

variable {n : Nat}

theorem shaped_declaration (ha : Yields n attempt IsShaped) {c c' : Cursor}
    (hn : c.rest.length ≤ n) {statement? : Option Stmt} {errors : List SyntaxError}
    (h : declaration c = ⟨.done statement?, c', errors⟩) : ∀ tree ∈ statement?, tree.Shaped := by
  obtain ⟨tree, rfl, hattempt⟩ | ⟨-, -, -, rfl, -⟩ := declaration_eq_done h
  · obtain ⟨_, -, htree⟩ := ha c hn tree c' errors hattempt
    rintro _ ⟨⟩
    exact htree
  · nofun

/-- One more declaration leaves a list of shaped ones so. -/
theorem ListStep.shaped_step {holds : Cursor → Prop}
    {step : List Stmt → Rule (Option (List Stmt))} (hs : ListStep holds step)
    (ha : Yields n attempt IsShaped) {c c' : Cursor} (hc : holds c) (hn : c.rest.length ≤ n)
    {read read' : List Stmt} {errors : List SyntaxError} (hread : ∀ tree ∈ read, tree.Shaped)
    (h : step read c = ⟨.done (some read'), c', errors⟩) : ∀ tree ∈ read', tree.Shaped := by
  obtain ⟨hnone, -, -⟩ | ⟨statement?, hdone, hsome⟩ := hs read c hc _ c' errors h
  · cases hnone
  · cases hsome
    have htree := shaped_declaration ha hn hdone
    exact List.forall_mem_append.mpr ⟨hread, fun tree hmem => htree tree (by simpa using hmem)⟩

/-- A list of declarations is shaped, however many were given up between those that were read. -/
theorem ListStep.shaped {holds : Cursor → Prop} {step : List Stmt → Rule (Option (List Stmt))}
    (hs : ListStep holds step) (hadvances : Advances holds step)
    (ha : Yields n attempt IsShaped) {c c' : Cursor} (hc : holds c) (hn : c.rest.length ≤ n)
    {result : List Stmt} {errors : List SyntaxError}
    (h : iterate step [] c = ⟨.done result, c', errors⟩) : ∀ tree ∈ result, tree.Shaped := by
  have hpreserved (read : List Stmt) (c : Cursor)
      (hread : (∀ tree ∈ read, tree.Shaped) ∧ holds c ∧ c.rest.length ≤ n) (read' : List Stmt)
      (c' : Cursor) (errors : List SyntaxError)
      (hstep : step read c = ⟨.done (some read'), c', errors⟩) :
      (∀ tree ∈ read', tree.Shaped) ∧ holds c' ∧ c'.rest.length ≤ n := by
    obtain ⟨hread, hc, hn⟩ := hread
    obtain ⟨hlt, hc'⟩ := hadvances.shrinks read c hc read' c' errors hstep
    exact ⟨hs.shaped_step ha hc hn hread hstep, hc', by omega⟩
  obtain ⟨last, hresult, -⟩ := iterate_invariant hpreserved ⟨List.forall_mem_nil _, hc, hn⟩ h
  exact hresult

theorem shaped_block (ha : Yields n attempt IsShaped) : Yields n (block declaration) AreShaped := by
  have hlist : Yields n (iterate (blockStep declaration) []) AreShaped := by
    intro c hc result c' errors h
    obtain ⟨-, hkeeps⟩ := agree_iterate (agree_blockStep (agreeOnDeclarations n))
      (shrinks_blockStep (agreeOnDeclarations n)) [] c hc
    rw [h] at hkeeps
    obtain ⟨used, hm, -⟩ := hkeeps.moves
    exact ⟨used, hm, listStep_block.shaped blockStep_advances ha trivial hc h⟩
  rw [block_eq]
  refine (yields_inBlock hlist).bind fun trees => ?_
  refine yields_expectNamed _ _ fun closing _ => yields_pure ?_
  exact fun _ _ _ _ _ _ _ _ htrees => htrees

theorem shaped_attempt_all (n : Nat) : Yields n attempt IsShaped := by
  induction n using Nat.strongRecOn with
  | ind n ih => exact shaped_attempt fun m hm => shaped_block (ih m hm)

end Lists

end Grammar

open Grammar

/-- Parsing returns shaped trees only, whatever errors it meets. -/
theorem parse_shaped {tokens : List Token} (h : Ends tokens) :
    ∃ trees c errors, parse tokens = ⟨.done trees, c, errors⟩ ∧ ∀ tree ∈ trees, tree.Shaped := by
  obtain ⟨used, mark, later, trees, errors, -, -, -, hparse⟩ := parse_done h
  exact ⟨trees, _, errors, hparse, listStep_program.shaped programStep_advances
    (shaped_attempt_all tokens.length) rfl (Nat.le_refl _) hparse⟩

def strayAndNested : List Token :=
  [bareToken .rightParen ")", bareToken .semicolon ";",
    bareToken .ifWord "if", bareToken .leftParen "(", bareToken .identifier "a",
    bareToken .rightParen ")", bareToken .ifWord "if", bareToken .leftParen "(",
    bareToken .identifier "b", bareToken .rightParen ")", bareToken .identifier "c",
    bareToken .semicolon ";", bareToken .elseWord "else", bareToken .identifier "d",
    bareToken .semicolon ";", Token.endMark 1]

/-- The else belongs to the inner conditional, and the outer one may take no else. -/
theorem parse_strayAndNested :
    Ends strayAndNested ∧ ∃ tree errors, parse strayAndNested =
      ⟨.done [tree], ⟨15, [Token.endMark 1], 0⟩, errors⟩ ∧ errors ≠ [] ∧ tree.dangling ∧
        tree.Shaped := by
  have hends : Ends strayAndNested := ⟨Token.endMark 1, by simp [strayAndNested], rfl⟩
  have hparse : parse strayAndNested =
      ⟨.done [.ifThen 1 (.name 1 (bareToken .identifier "a"))
          (.ifElse 1 (.name 1 (bareToken .identifier "b"))
            (.expression 1 (.name 1 (bareToken .identifier "c")))
            (.expression 1 (.name 1 (bareToken .identifier "d"))))],
        ⟨15, [Token.endMark 1], 0⟩, [⟨.expectedExpression, bareToken .rightParen ")", 0⟩]⟩ := rfl
  obtain ⟨trees, c, errors, hdone, hshaped⟩ := parse_shaped hends
  rw [hparse] at hdone
  cases hdone
  exact ⟨hends, _, _, hparse, List.cons_ne_nil _ _, rfl, hshaped _ List.mem_cons_self⟩

end ScriptLang
