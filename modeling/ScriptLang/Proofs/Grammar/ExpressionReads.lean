import ScriptLang.Proofs.Grammar.Spelling
import ScriptLang.Proofs.Rule.Reads

namespace ScriptLang.Grammar

open Rule

def Tier.continues : Tier → List TokenKind
  | assignment => .equal :: .leftParen :: Level.all.flatMap Level.operators
  | binary level => .leftParen :: (Level.all.dropWhile (· ≠ level)).flatMap Level.operators
  | unary | call => [.leftParen]
  | primary => []

theorem continues_operandTier_subset (level : Level) :
    level.operandTier.continues ⊆ (Tier.binary level).continues := by
  cases level <;> decide

theorem operators_subset_continues (level : Level) :
    level.operators ⊆ (Tier.binary level).continues := by
  cases level <;> decide

theorem not_mem_continues_operandTier {level : Level} :
    ∀ kind ∈ level.operators, kind ∉ level.operandTier.continues := by
  cases level <;> decide

theorem eof_not_mem_operators (level : Level) : .eof ∉ level.operators := by
  cases level <;> decide

/-- What the rule for a phrase reads off its tokens. -/
def Phrase.IsRead (openBlocks : Nat) : Phrase → Nat → List Token → List SyntaxError → Prop
  | expr tier tree, start, ts, errors => ∀ rest, Follows tier.continues rest →
    Reads openBlocks (tier.rule expression) start ts rest tree errors
  | operands level left result, start, ts, errors =>
    ∀ rest, Follows (Tier.binary level).continues rest →
      Reads openBlocks (moreOperands level (level.operandTier.rule expression) left) start ts rest
        result errors
  | calls callee result, start, ts, errors => ∀ rest, Follows [.leftParen] rest →
    Reads openBlocks (moreCalls expression callee) start ts rest result errors
  | arguments trees, start, ts, errors => ∀ closing later, closing.kind = .rightParen →
    Reads openBlocks (Grammar.arguments expression) start ts (closing :: later) trees errors
  | moreArguments read trees, start, ts, errors => ∀ closing later, closing.kind = .rightParen →
    Reads openBlocks (Grammar.moreArguments read) start ts (closing :: later) trees
      errors

theorem follows_continues_of_rightParen {closing : Token} (later : List Token)
    (h : closing.kind = .rightParen) : Follows Tier.assignment.continues (closing :: later) :=
  ⟨closing, later, rfl, by rw [h]; decide⟩

theorem rule_unary : Tier.unary.rule expression =
    unaryBody expression (Tier.unary.rule expression) := unary_unfold

theorem rule_assignment : Tier.assignment.rule expression = expression := expression_eq.symm

section Rules

variable {openBlocks : Nat}

theorem reads_literal {start : Nat} {token : Token} (hk : token.kind ∈ literalKinds)
    (rest : List Token) :
    Reads openBlocks (primary expression) start [token] rest (.literal token.line token.value)
      [] := by
  have hsub : literalKinds ⊆ primaryHeads := by decide
  have hkinds : token.kind ∈ primaryHeads := hsub hk
  refine reads_accept? hkinds (by decide) ?_
  unfold Token.value
  simp only [literalKinds, List.mem_cons, List.not_mem_nil, or_false] at hk
  obtain h | h | h | h | h := hk <;> simp only [h] <;> exact reads_pure _ _ _

theorem reads_name {start : Nat} {token : Token} (hk : token.kind = .identifier)
    (rest : List Token) :
    Reads openBlocks (primary expression) start [token] rest (.name token.line token) [] := by
  refine reads_accept? (by simp [hk]) (by decide) ?_
  simp only [hk]
  exact reads_pure _ _ _

theorem reads_grouping {start : Nat} {opening closing : Token} {ts : List Token} {inner : Expr}
    {errors : List SyntaxError} (ho : opening.kind = .leftParen)
    (h : Phrase.IsRead openBlocks (.expr .assignment inner) (start + 1) ts errors)
    (hc : closing.kind = .rightParen) (rest : List Token) :
    Reads openBlocks (primary expression) start (opening :: (ts ++ [closing])) rest
      (.grouping opening.line inner) errors := by
  have hinner : Reads openBlocks expression (start + 1) ts ([closing] ++ rest) inner errors := by
    rw [← rule_assignment]
    exact h (closing :: rest) (follows_continues_of_rightParen rest hc)
  refine reads_accept? (by simp [ho]) (by decide) ?_
  simp only [ho]
  have hclose : Reads openBlocks (do
      let _ ← expect .rightParen "after expression"
      return Expr.grouping opening.line inner) (start + 1 + ts.length) [closing] rest
        (.grouping opening.line inner) [] :=
    reads_expectNamed _ _ hc (by decide) (reads_pure _ _ _)
  rw [← List.append_nil errors]
  exact Reads.bind hinner hclose

theorem reads_item {α : Type} {fault : SyntaxFault} {start : Nat} {head : Token}
    {ts rest : List Token} {value : α} {errors : List SyntaxError} {rule : Rule α}
    (h : Reads openBlocks rule start (head :: ts) rest value errors) (count : Nat) :
    Reads openBlocks (item fault count rule) start (head :: ts) rest value
      (overflow fault count head start ++ errors) := by
  rw [item_eq]
  unfold overflow
  split
  · exact reads_flag _ h
  · exact h

theorem reads_argument {start : Nat} {head : Token} {ts rest : List Token} {tree : Expr}
    {errors : List SyntaxError} (read : List Expr)
    (h : Reads openBlocks expression start (head :: ts) rest tree errors) :
    Reads openBlocks (argument expression read) start (head :: ts) rest (read ++ [tree])
      (overflow .tooManyArguments read.length head start ++ errors) :=
  reads_item (h.map _) _

theorem reads_arguments {start : Nat} {closing : Token} {ts us later : List Token} {first : Expr}
    {trees : List Expr} {errors errors' : List SyntaxError}
    (hbegins : BeginsWith Tier.assignment.heads ts)
    (hfirst : Reads openBlocks expression start ts (us ++ closing :: later) first errors)
    (hmore : Reads openBlocks (moreArguments [first]) (start + ts.length) us
      (closing :: later) trees errors') :
    Reads openBlocks (arguments expression) start (ts ++ us) (closing :: later) trees
      (errors ++ errors') := by
  obtain ⟨head, tail, rfl, hk⟩ := hbegins
  have hne : head.kind ≠ .rightParen := by
    intro h
    rw [h] at hk
    revert hk
    decide
  rw [arguments_eq]
  refine reads_isNext head _ rfl (by decide) ?_
  rw [decide_eq_false hne, if_neg Bool.false_ne_true]
  exact Reads.bind (reads_argument [] hfirst) hmore

theorem reads_callOf {start : Nat} {paren : Token} {ts rest : List Token} {callee : Expr}
    {trees : List Expr} {errors : List SyntaxError} (hp : paren.kind = .rightParen)
    (h : Reads openBlocks (arguments expression) start ts ([paren] ++ rest) trees errors) :
    Reads openBlocks (callOf expression callee) start (ts ++ [paren]) rest
      (.call callee.line callee paren trees) errors := by
  have hclose : Reads openBlocks (do
      let paren ← expect .rightParen "after arguments"
      return Expr.call callee.line callee paren trees) (start + ts.length) [paren] rest
        (.call callee.line callee paren trees) [] :=
    reads_expectNamed _ _ hp (by decide) (reads_pure _ _ _)
  rw [← List.append_nil errors]
  exact Reads.bind h hclose

theorem reads_moreCalls {start : Nat} {opening paren : Token} {ts us rest : List Token}
    {callee result : Expr} {trees : List Expr} {errors errors' : List SyntaxError}
    (ho : opening.kind = .leftParen) (hp : paren.kind = .rightParen)
    (ha : Reads openBlocks (arguments expression) (start + 1) ts (paren :: (us ++ rest)) trees
      errors)
    (h : Reads openBlocks (moreCalls expression (.call callee.line callee paren trees))
      (start + 1 + (ts.length + 1)) us rest result errors') :
    Reads openBlocks (moreCalls expression callee) start (opening :: (ts ++ paren :: us)) rest
      result (errors ++ errors') := by
  rw [moreCalls_unfold]
  refine reads_accept? (by simp [ho]) (by decide) ?_
  rw [List.append_cons]
  refine Reads.bind (reads_callOf hp ha) ?_
  rwa [List.length_append, List.length_singleton]

theorem reads_moreArguments {start : Nat} {comma head : Token} {ts us rest : List Token}
    {read trees : List Expr} {tree : Expr} {errors errors' : List SyntaxError}
    (hc : comma.kind = .comma)
    (ht : Reads openBlocks expression (start + 1) (head :: ts) (us ++ rest) tree errors)
    (h : Reads openBlocks (moreArguments (read ++ [tree])) (start + 1 + (ts.length + 1))
      us rest trees errors') :
    Reads openBlocks (moreArguments read) start (comma :: (head :: ts ++ us)) rest trees
      (overflow .tooManyArguments read.length head (start + 1) ++ errors ++ errors') := by
  rw [moreArguments_unfold]
  refine reads_accept? (by simp [hc]) (by decide) ?_
  exact Reads.bind (reads_argument read ht) h

theorem reads_moreOperands {start : Nat} {level : Level} {operator : Token}
    {ts us rest : List Token} {left right result : Expr} {errors errors' : List SyntaxError}
    (ho : operator.kind ∈ level.operators)
    (hr : Reads openBlocks (level.operandTier.rule expression) (start + 1) ts (us ++ rest) right
      errors)
    (h : Reads openBlocks (moreOperands level (level.operandTier.rule expression)
      (level.join left operator right)) (start + 1 + ts.length) us rest result errors') :
    Reads openBlocks (moreOperands level (level.operandTier.rule expression) left) start
      (operator :: (ts ++ us)) rest result (errors ++ errors') := by
  rw [moreOperands_unfold]
  exact reads_accept? ho (eof_not_mem_operators level) (Reads.bind hr h)

theorem reads_assign {start : Nat} {equals : Token} {ts us rest : List Token} {line : Int}
    {name : Token} {value : Expr} {errors errors' : List SyntaxError} (he : equals.kind = .equal)
    (ht : Reads openBlocks (operation expression) start ts (equals :: us ++ rest) (.name line name)
      errors)
    (h : Reads openBlocks expression (start + ts.length + 1) us rest value errors') :
    Reads openBlocks (assignment expression) start (ts ++ equals :: us) rest
      (.assign line name value) (errors ++ errors') := by
  refine Reads.bind ht (reads_position (reads_accept? (by simp [he]) (by decide) ?_))
  have hboth := Reads.bind_nil (f := fun value => (pure (.assign line name value) : Rule Expr)) h
    (reads_pure _ _ _)
  rwa [List.append_nil] at hboth

theorem reads_badAssignment {start : Nat} {equals : Token} {ts us rest : List Token}
    {target value : Expr} {errors errors' : List SyntaxError}
    (hn : ∀ line name, target ≠ .name line name) (he : equals.kind = .equal)
    (ht : Reads openBlocks (operation expression) start ts (equals :: us ++ rest) target errors)
    (h : Reads openBlocks expression (start + ts.length + 1) us rest value errors') :
    Reads openBlocks (assignment expression) start (ts ++ equals :: us) rest target
      (errors ++ errors' ++ [⟨.invalidAssignmentTarget, equals, start + ts.length⟩]) := by
  rw [List.append_assoc]
  refine Reads.bind ht (reads_position (reads_accept? (by simp [he]) (by decide) ?_))
  have hrecord : Reads openBlocks (do
      recordError ⟨.invalidAssignmentTarget, equals, start + ts.length⟩
      return target) (start + ts.length + 1 + us.length) [] rest target
        [⟨.invalidAssignmentTarget, equals, start + ts.length⟩] :=
    reads_recordError _ (reads_pure _ _ _)
  have hboth := Reads.bind_nil (f := fun _ => (do
      recordError ⟨.invalidAssignmentTarget, equals, start + ts.length⟩
      return target : Rule Expr)) h hrecord
  cases target with
  | name line token => exact absurd rfl (hn line token)
  | _ => exact hboth

end Rules

theorem follows_moreArguments {closing : Token} {us : List Token} {read trees : List Expr}
    (h : (Phrase.moreArguments read trees).Begins us) (later : List Token)
    (hk : closing.kind = .rightParen) :
    Follows Tier.assignment.continues (us ++ closing :: later) := by
  obtain rfl | ⟨comma, us, rfl, hcomma⟩ := h
  · exact follows_continues_of_rightParen later hk
  · refine ⟨comma, us ++ closing :: later, rfl, ?_⟩
    rw [List.mem_singleton.mp hcomma]
    decide

theorem follows_operands {level : Level} {us rest : List Token} {left result : Expr}
    (h : (Phrase.operands level left result).Begins us)
    (hrest : Follows (Tier.binary level).continues rest) :
    Follows level.operandTier.continues (us ++ rest) := by
  obtain rfl | ⟨operator, us, rfl, hoperator⟩ := h
  · exact hrest.mono (continues_operandTier_subset level)
  · exact ⟨operator, us ++ rest, rfl, not_mem_continues_operandTier _ hoperator⟩

theorem follows_equals {equals : Token} (later : List Token) (h : equals.kind = .equal) :
    Follows (Tier.binary .disjunction).continues (equals :: later) :=
  ⟨equals, later, rfl, by rw [h]; decide⟩

/-- Tokens that spell a phrase are read as that phrase. -/
theorem Spells.isRead (openBlocks : Nat) {phrase : Phrase} {start : Nat} {ts : List Token}
    {errors : List SyntaxError} (h : Spells phrase start ts errors) :
    phrase.IsRead openBlocks start ts errors := by
  induction h with
  | literal start hk => exact fun rest _ => reads_literal hk rest
  | name start hk => exact fun rest _ => reads_name hk rest
  | grouping ho _ hc ih => exact fun rest _ => reads_grouping ho ih hc rest
  | noCalls start callee =>
    intro rest hrest
    rw [moreCalls_unfold]
    exact reads_accept?_none hrest (reads_pure _ _ _)
  | @oneCall start opening paren ts us callee arguments result errors errors' ho _ hp _ iha ih =>
    intro rest hrest
    exact reads_moreCalls ho hp (iha paren (us ++ rest) hp) (ih rest hrest)
  | call _ _ ihc ih =>
    intro rest hrest
    rw [show Tier.call.rule expression = primary expression >>= moreCalls expression from call_eq _]
    exact Reads.bind (ihc _ (follows_nil_append hrest _)) (ih rest hrest)
  | noArguments start =>
    intro closing later hk
    rw [arguments_eq]
    refine reads_isNext closing _ rfl (by decide) ?_
    rw [decide_eq_true hk, if_pos rfl]
    exact reads_pure _ _ _
  | @someArguments start ts us first trees errors errors' hf hm ihf ih =>
    intro closing later hk
    -- the rest of the list begins with a comma or with the closing parenthesis, which no argument
    -- goes on with
    have hfirst := ihf _ (follows_moreArguments hm.begins later hk)
    rw [rule_assignment] at hfirst
    exact reads_arguments hf.begins hfirst (ih closing later hk)
  | lastArgument start trees =>
    intro closing later hk
    rw [moreArguments_unfold]
    refine reads_accept?_none ⟨closing, later, rfl, ?_⟩ (reads_pure _ _ _)
    rw [hk]
    decide
  | @nextArgument start comma head ts us read tree trees errors errors' hc ht hm iht ih =>
    intro closing later hk
    have htree := iht _ (follows_moreArguments hm.begins later hk)
    rw [rule_assignment] at htree
    exact reads_moreArguments hc htree (ih closing later hk)
  | @unaryOfCall start ts tree errors hcall ih =>
    intro rest hrest
    obtain ⟨head, tail, rfl, hk⟩ := hcall.begins
    rw [rule_unary]
    refine reads_accept?_none ⟨head, tail ++ rest, rfl, ?_⟩ (ih rest hrest)
    -- the phrase begins like a primary one, so no prefix operator is next
    have hdisjoint : ∀ kind ∈ primaryHeads, kind ∉ prefixOperators := by decide
    exact hdisjoint head.kind hk
  | unary ho _ ih =>
    intro rest hrest
    rw [rule_unary]
    exact reads_accept? ho (by decide) ((ih rest hrest).map _)
  | lastOperand start level left =>
    intro rest hrest
    rw [moreOperands_unfold]
    exact reads_accept?_none (hrest.mono (operators_subset_continues level)) (reads_pure _ _ _)
  | @nextOperand start level operator ts us left right result errors errors' ho hr hm ihr ih =>
    intro rest hrest
    exact reads_moreOperands ho (ihr _ (follows_operands hm.begins hrest)) (ih rest hrest)
  | @binary start level ts us first result errors errors' hf hm ihf ih =>
    intro rest hrest
    rw [Tier.rule_binary, binary_eq]
    exact Reads.bind (ihf _ (follows_operands hm.begins hrest)) (ih rest hrest)
  | @operation start ts tree errors _ ih =>
    intro rest hrest
    have hsub : (Tier.binary .disjunction).continues ⊆ Tier.assignment.continues := by decide
    have hmiss : [TokenKind.equal] ⊆ Tier.assignment.continues := by decide
    -- an assignment goes on with an equals sign, and so what follows it is none
    have htarget : Reads openBlocks (Grammar.operation expression) start ts rest tree errors :=
      ih rest (hrest.mono hsub)
    rw [← List.append_nil errors]
    refine Reads.bind_nil htarget (reads_position ?_)
    exact reads_accept?_none (hrest.mono hmiss) (reads_pure _ _ _)
  | @assignment start equals ts us line name value errors errors' _ he _ iht ih =>
    intro rest hrest
    have htarget := iht (equals :: us ++ rest) (follows_equals _ he)
    have hvalue := ih rest hrest
    rw [rule_assignment] at hvalue
    exact reads_assign he htarget hvalue
  | @badAssignment start equals ts us target value errors errors' _ hn he _ iht ih =>
    intro rest hrest
    have htarget := iht (equals :: us ++ rest) (follows_equals _ he)
    have hvalue := ih rest hrest
    rw [rule_assignment] at hvalue
    exact reads_badAssignment hn he htarget hvalue

end ScriptLang.Grammar
