import ScriptLang.Proofs.Rule.Agreement
import ScriptLang.Syntax.Grammar

namespace ScriptLang

def TokenKind.inExpression (kind : TokenKind) : Bool :=
  kind ∉ [.leftBrace, .rightBrace, .dot, .semicolon, .elseWord, .fnWord, .ifWord, .letWord,
    .printWord, .whileWord, .eof]

namespace Regime

/-- Expressions use up no brace, semicolon or statement word, and record only what does not stop
them. -/
def expression : Regime where
  uses := TokenKind.inExpression
  records error := error.fault.raised = false

/-- Statements may use up anything but an end mark. -/
def statement : Regime where
  uses kind := kind ≠ .eof
  records _ := True

theorem uses_statement_of_expression {kind : TokenKind} (h : expression.uses kind) :
    statement.uses kind := by
  cases kind <;> first | rfl | cases h

end Regime

namespace Rule

variable {α : Type} {n : Nat} {r s : Rule α}

theorem Agree.toStatement (h : Agree .expression n r s) : Agree .statement n r s := by
  intro c hc
  obtain ⟨heq, ⟨used, hm, hu⟩, -, hstops, hstarves⟩ := h c hc
  refine ⟨heq, ⟨used, hm, ?_⟩, fun _ _ => trivial, hstops, hstarves⟩
  intro token hmem
  exact Regime.uses_statement_of_expression (hu token hmem)

end Rule

namespace Grammar

open Rule

section Lists

variable {n : Nat} {α : Type} {fault : SyntaxFault} {more more' : List α → Rule (List α)}

theorem item_eq (fault : SyntaxFault) (count : Nat) (rule : Rule α) :
    item fault count rule = if maxArguments ≤ count then flag fault >>= fun _ => rule else rule :=
  rfl

theorem agree_item {r s : Rule α} (hfault : fault.raised = false) (h : Agree .expression n r s)
    (count : Nat) : Agree .expression n (item fault count r) (item fault count s) := by
  rw [item_eq, item_eq]
  split
  · exact agree_bind (agree_flag fun _ _ => hfault) fun _ => h
  · exact h

/-- The items that follow those read so far. -/
def moreItems (more : List α → Rule (List α)) : List α → Rule (List α) :=
  loop [.comma] fun read _ => more read

theorem itemList_eq (more : List α → Rule (List α)) : itemList more = (do
    if ← isNext .rightParen then return []
    else moreItems more (← more [])) := rfl

theorem agree_itemList (h : ∀ read, Agree .expression n (more read) (more' read)) :
    Agree .expression n (itemList more) (itemList more') := by
  rw [itemList_eq, itemList_eq]
  refine agree_bind (agree_isNext _) fun isClosed => ?_
  split
  · exact agree_pure _
  · refine agree_bind (h []) fun first => ?_
    exact agree_loop (by decide) (fun read _ _ hm => (h read).mono (Nat.le_of_lt hm)) first

theorem moreItems_unfold (h : ∀ read n, Agree .expression n (more read) (more read))
    (read : List α) : moreItems more read = (do
      match ← accept? [.comma] with
      | some _ => moreItems more (← more read)
      | none => return read) :=
  loop_eq .expression (fun read _ => h read) read

end Lists

section Expressions

variable {n : Nat} {e e' : Rule Expr}

theorem agree_primary (he : ∀ m < n, Agree .expression m e e') :
    Agree .expression n (primary e) (primary e') := by
  refine agree_accept? (by decide) ?_ (agree_stop _ rfl)
  intro token m _ hm
  dsimp only
  split
  · exact agree_pure _
  · exact agree_pure _
  · exact agree_pure _
  · exact agree_pure _
  · refine agree_bind (he m hm) fun inner => ?_
    exact agree_bind (agree_expectNamed _ _ fun _ => rfl) fun _ => agree_pure _
  · exact agree_pure _

theorem agree_argument (he : Agree .expression n e e') (read : List Expr) :
    Agree .expression n (argument e read) (argument e' read) :=
  agree_item rfl (agree_bind he fun _ => agree_pure _) _

theorem agree_arguments (he : Agree .expression n e e') :
    Agree .expression n (arguments e) (arguments e') :=
  agree_itemList (agree_argument he)

def callOf (e : Rule Expr) (callee : Expr) : Rule Expr := do
  let arguments ← arguments e
  let paren ← expect .rightParen "after arguments"
  return .call callee.line callee paren arguments

def moreCalls (e : Rule Expr) : Expr → Rule Expr :=
  loop [.leftParen] fun callee _ => callOf e callee

theorem call_eq (e : Rule Expr) : call e = primary e >>= moreCalls e := by
  refine congrArg (fun step => primary e >>= iterate step) ?_
  funext callee
  unfold loopStep
  congr 1
  funext found
  cases found with
  | some token =>
    -- a call ends with its closing parenthesis, and then the loop goes on with it
    unfold callOf
    simp only [bind_assoc, pure_bind]
  | none => rfl

theorem agree_callOf (he : Agree .expression n e e') (callee : Expr) :
    Agree .expression n (callOf e callee) (callOf e' callee) := by
  refine agree_bind (agree_arguments he) fun arguments => ?_
  exact agree_bind (agree_expectNamed _ _ fun _ => rfl) fun _ => agree_pure _

theorem agree_call (he : ∀ m < n, Agree .expression m e e') :
    Agree .expression n (call e) (call e') := by
  rw [call_eq, call_eq]
  refine agree_bind (agree_primary he) fun callee => ?_
  exact agree_loop (by decide) (fun callee _ m hm => agree_callOf (he m hm) callee) callee

def unaryBody [ListLimit] (e unary : Rule Expr) : Rule Expr := do
  match ← accept? prefixOperators with
  | some operator => return .unary operator.line operator (← unary)
  | none => call e

theorem unaryBody_starves [ListLimit] (e : Rule Expr) : Starves (unaryBody e) :=
  fun _ _ hc => accept?_bind_of_nil _ _ hc

theorem agree_unaryBody {r s : Rule Expr} (he : ∀ m < n, Agree .expression m e e')
    (hr : ∀ m < n, Agree .expression m r s) :
    Agree .expression n (unaryBody e r) (unaryBody e' s) :=
  agree_accept? (by decide) (fun _ m _ hm => agree_bind (hr m hm) fun _ => agree_pure _)
    (agree_call he)

theorem agree_unary (he : ∀ m < n, Agree .expression m e e') :
    Agree .expression n (unary e) (unary e') :=
  agree_fix (unaryBody_starves e) (unaryBody_starves e') fun m hm _ _ hr =>
    agree_unaryBody (fun k hk => he k (by omega)) hr

theorem unary_eq (he : ∀ m, Agree .expression m e e) : unary e = unaryBody e (unary e) :=
  fix_eq (unaryBody_starves e) fun _ _ _ hr => agree_unaryBody (fun m _ => he m) hr

/-- The operators of a level and their right operands, joined to what is read so far. -/
def moreOperands (level : Level) (operand : Rule Expr) : Expr → Rule Expr :=
  loop level.operators fun left operator => level.join left operator <$> operand

theorem binary_eq (level : Level) (operand : Rule Expr) :
    binary level operand = operand >>= moreOperands level operand := by
  refine congrArg (fun step => operand >>= iterate step) ?_
  funext left
  unfold loopStep
  congr 1
  funext found
  cases found with
  | some operator =>
    show _ = level.join left operator <$> operand >>= fun joined => pure (some joined)
    rw [map_eq_bind, bind_assoc]
    rfl
  | none => rfl

theorem Level.inExpression_of_mem_operators {level : Level} :
    ∀ kind ∈ level.operators, kind.inExpression := by
  cases level <;> decide

theorem agree_binary (level : Level) {r s : Rule Expr} (hr : Agree .expression n r s) :
    Agree .expression n (binary level r) (binary level s) := by
  rw [binary_eq, binary_eq]
  refine agree_bind hr fun left => agree_loop ?_ ?_ left
  · exact fun kind hk _ => Level.inExpression_of_mem_operators kind hk
  · exact fun left operator m hm => agree_map _ (hr.mono (Nat.le_of_lt hm))

/-- How tight a phrase binds, from the loosest to the tightest. -/
inductive Tier where
  | assignment | binary (level : Level) | unary | call | primary
  deriving DecidableEq

def Level.operandTier : Level → Tier
  | disjunction => .binary conjunction
  | conjunction => .binary equality
  | equality => .binary comparison
  | comparison => .binary sum
  | sum => .binary product
  | product => .unary

/-- The rule for the phrases of a tier, given the rule for whole expressions. -/
def Tier.rule (e : Rule Expr) : Tier → Rule Expr
  | assignment => Grammar.assignment e
  | binary level => (Level.all.dropWhile (· ≠ level)).foldr Grammar.binary (Grammar.unary e)
  | unary => Grammar.unary e
  | call => Grammar.call e
  | primary => Grammar.primary e

theorem Tier.rule_binary (e : Rule Expr) (level : Level) :
    (Tier.binary level).rule e = Grammar.binary level (level.operandTier.rule e) := by
  cases level <;> rfl

theorem agree_foldr_binary (levels : List Level) {r s : Rule Expr}
    (hr : Agree .expression n r s) :
    Agree .expression n (levels.foldr binary r) (levels.foldr binary s) := by
  induction levels with
  | nil => exact hr
  | cons level levels ih => exact agree_binary level ih

theorem agree_assignment (he : ∀ m < n, Agree .expression m e e') :
    Agree .expression n (assignment e) (assignment e') := by
  refine agree_bind (agree_foldr_binary Level.all (agree_unary he)) fun target => ?_
  refine agree_bind agree_position fun equalsPosition => ?_
  refine agree_accept? (by decide) (fun equals m _ hm => ?_) (agree_pure target)
  refine agree_bind (he m hm) fun value => ?_
  split
  · exact agree_pure _
  · exact agree_bind (agree_recordError rfl) fun _ => agree_pure target

end Expressions

theorem foldr_binary_of_ranOut (levels : List Level) {operand : Rule Expr} {c : Cursor}
    (h : operand c = ⟨.ranOut, c, []⟩) : levels.foldr binary operand c = ⟨.ranOut, c, []⟩ := by
  induction levels with
  | nil => exact h
  | cons level levels ih =>
    rw [List.foldr_cons, binary_eq]
    exact bind_of_ranOut ih

theorem assignment_starves [ListLimit] : Starves assignment := by
  intro e c hc
  have hunary : unary e c = ⟨.ranOut, c, []⟩ := (unaryBody_starves e).fixWithin_eq _ hc
  exact bind_of_ranOut (foldr_binary_of_ranOut Level.all hunary)

theorem expression_eq : expression = assignment expression :=
  fix_eq assignment_starves fun _ _ _ he => agree_assignment he

theorem agree_expression (n : Nat) : Agree .expression n expression expression :=
  agree_fix assignment_starves assignment_starves fun _ _ _ _ he => agree_assignment he

theorem agree_tier (tier : Tier) (n : Nat) :
    Agree .expression n (tier.rule expression) (tier.rule expression) := by
  have he : ∀ m < n, Agree .expression m expression expression := fun m _ => agree_expression m
  cases tier with
  | assignment => exact agree_assignment he
  | binary level => exact agree_foldr_binary _ (agree_unary he)
  | unary => exact agree_unary he
  | call => exact agree_call he
  | primary => exact agree_primary he

theorem unary_unfold : unary expression = unaryBody expression (unary expression) :=
  unary_eq agree_expression

def moreArguments : List Expr → Rule (List Expr) := moreItems (argument expression)

theorem arguments_eq : arguments expression = (do
    if ← isNext .rightParen then return []
    else moreArguments (← argument expression [])) := rfl

theorem moreArguments_unfold (read : List Expr) : moreArguments read = (do
    match ← accept? [.comma] with
    | some _ => moreArguments (← argument expression read)
    | none => return read) :=
  moreItems_unfold (fun read n => agree_argument (agree_expression n) read) read

theorem moreCalls_unfold (callee : Expr) : moreCalls expression callee = (do
    match ← accept? [.leftParen] with
    | some _ => moreCalls expression (← callOf expression callee)
    | none => return callee) :=
  loop_eq .expression (fun callee _ n => agree_callOf (agree_expression n) callee) callee

theorem moreOperands_unfold (level : Level) (left : Expr) :
    moreOperands level (level.operandTier.rule expression) left = (do
      match ← accept? level.operators with
      | some operator =>
        let right ← level.operandTier.rule expression
        moreOperands level (level.operandTier.rule expression) (level.join left operator right)
      | none => return left) := by
  unfold moreOperands
  rw [loop_eq .expression (fun _ _ n => agree_map _ (agree_tier _ n))]
  congr 1
  funext found
  cases found with
  | some operator => exact bind_assoc ..
  | none => rfl

end Grammar

end ScriptLang
