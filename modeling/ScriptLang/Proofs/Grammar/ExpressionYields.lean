import ScriptLang.Proofs.Grammar.Spelling
import ScriptLang.Proofs.Rule.Yields

namespace ScriptLang.Grammar

open Rule

variable {n : Nat}

def YieldsPhrase {α : Type} (n : Nat) (r : Rule α) (phrase : α → Phrase) : Prop :=
  Yields n r fun value start ts _ errors => Spells (phrase value) start ts errors

theorem YieldsPhrase.mono {α : Type} {r : Rule α} {phrase : α → Phrase} {m : Nat}
    (h : YieldsPhrase n r phrase) (hm : m ≤ n) : YieldsPhrase m r phrase :=
  Yields.mono h hm

theorem mem_literalKinds {token : Token} (hk : token.kind ∈ primaryHeads)
    (hname : token.kind ≠ .identifier) (hparen : token.kind ≠ .leftParen) :
    token.kind ∈ literalKinds := by
  simpa [primaryHeads, literalKinds, hname, hparen] using hk

theorem yields_literal {token : Token} (hk : token.kind ∈ literalKinds) {value : Literal}
    (hv : value = token.value) :
    Yields n (pure (Expr.literal token.line value)) fun result middle us _ errors =>
      ∀ start, middle = start + 1 → Spells (.expr .primary result) start (token :: us) errors := by
  subst hv
  exact yields_pure fun _ _ start _ => .literal start hk

theorem yields_grouping {opening : Token} (ho : opening.kind = .leftParen)
    (he : YieldsPhrase n expression (.expr .assignment)) :
    Yields n (do
      let inner ← expression
      let _ ← expect .rightParen "after expression"
      return Expr.grouping opening.line inner) fun result middle us _ errors =>
        ∀ start, middle = start + 1 →
          Spells (.expr .primary result) start (opening :: us) errors := by
  refine he.bind fun inner => yields_expectNamed _ _ fun closing hc => yields_pure ?_
  intro _ rest _ hclosing _ ts errors hmiddle hinner start hstart
  subst hclosing hmiddle hstart
  rw [List.append_nil]
  exact .grouping ho hinner hc

theorem yields_primary (he : ∀ m < n, YieldsPhrase m expression (.expr .assignment)) :
    YieldsPhrase n (primary expression) (.expr .primary) := by
  refine yields_accept? (fun token m hk hm => ?_) (yields_stop _)
  dsimp only
  split
  · next h => exact yields_literal (by rw [h]; decide) (by rw [Token.value, h])
  · next h => exact yields_literal (by rw [h]; decide) (by rw [Token.value, h])
  · next h => exact yields_literal (by rw [h]; decide) (by rw [Token.value, h])
  · next h => exact yields_pure fun _ _ start _ => .name start h
  · next h => exact yields_grouping h (he m hm)
  · next hf ht hn hi hp =>
    refine yields_literal (mem_literalKinds hk hi hp) ?_
    unfold Token.value
    split
    · next h => exact absurd h hf
    · next h => exact absurd h ht
    · next h => exact absurd h hn
    · rfl

def IsArgument (read : List Expr) : Outcome (List Expr) := fun trees start ts _ errors =>
  ∃ tree head tail errors', trees = read ++ [tree] ∧ ts = head :: tail ∧
    Spells (.expr .assignment tree) start ts errors' ∧
    errors = overflow .tooManyArguments read.length head start ++ errors'

theorem yields_argument (he : YieldsPhrase n expression (.expr .assignment)) (read : List Expr) :
    Yields n (argument expression read) (IsArgument read) := by
  unfold argument
  rw [item_eq]
  split
  · next hlimit =>
    refine yields_flag _ (he.map (fun tree => read ++ [tree]) ?_)
    intro tree start ts rest errors htree token htoken
    obtain ⟨head, tail, rfl, -⟩ := htree.begins
    have htoken : head = token := Option.some.inj htoken
    subst htoken
    exact ⟨tree, head, tail, errors, rfl, rfl, htree, by simp [overflow, hlimit]⟩
  · next hlimit =>
    refine he.map (fun tree => read ++ [tree]) ?_
    intro tree start ts rest errors htree
    obtain ⟨head, tail, rfl, -⟩ := htree.begins
    exact ⟨tree, head, tail, errors, rfl, rfl, htree, by simp [overflow, hlimit]⟩

theorem yields_moreArguments (he : YieldsPhrase n expression (.expr .assignment))
    (read : List Expr) :
    YieldsPhrase n (moreArguments read) (.moreArguments read) := by
  induction n using Nat.strongRecOn generalizing read with
  | ind n ih =>
    rw [moreArguments_unfold]
    refine yields_accept? (fun comma m hk hm => ?_) ?_
    · have hem := he.mono (Nat.le_of_lt hm)
      refine (yields_argument hem read).bind fun trees => (ih m hm hem trees).imp ?_
      intro result _ us rest errors' hmore _ ts errors hmiddle hargument start hstart
      obtain ⟨tree, head, tail, errors, rfl, rfl, htree, rfl⟩ := hargument
      subst hmiddle hstart
      exact .nextArgument (List.mem_singleton.mp hk) htree hmore
    · exact yields_pure fun start _ _ => .lastArgument start read

theorem yields_arguments (he : YieldsPhrase n expression (.expr .assignment)) :
    YieldsPhrase n (arguments expression) .arguments := by
  rw [arguments_eq]
  refine yields_isNext _ fun isClosed => ?_
  split
  · exact yields_pure fun start _ => .noArguments start
  · refine (yields_argument he []).bind fun trees => (yields_moreArguments he trees).imp ?_
    intro result _ us rest errors' hmore start ts errors hmiddle hargument
    obtain ⟨tree, head, tail, errors, rfl, rfl, htree, rfl⟩ := hargument
    subst hmiddle
    exact .someArguments htree hmore

def IsCallOf (callee : Expr) : Outcome Expr := fun tree start ts _ errors =>
  ∃ inner paren arguments, ts = inner ++ [paren] ∧ paren.kind = .rightParen ∧
    tree = .call callee.line callee paren arguments ∧ Spells (.arguments arguments) start inner
      errors

theorem yields_callOf (he : YieldsPhrase n expression (.expr .assignment)) (callee : Expr) :
    Yields n (callOf expression callee) (IsCallOf callee) := by
  refine (yields_arguments he).bind fun arguments => ?_
  refine yields_expectNamed _ _ fun paren hk => yields_pure ?_
  intro _ rest _ _ start inner errors _ harguments
  rw [List.append_nil]
  exact ⟨inner, paren, arguments, rfl, hk, rfl, harguments⟩

theorem yields_moreCalls (he : ∀ m < n, YieldsPhrase m expression (.expr .assignment))
    (callee : Expr) : YieldsPhrase n (moreCalls expression callee) (.calls callee) := by
  induction n using Nat.strongRecOn generalizing callee with
  | ind n ih =>
    rw [moreCalls_unfold]
    refine yields_accept? (fun opening m hk hm => ?_) ?_
    · have hmore := ih m hm (fun k hk => he k (Nat.lt_trans hk hm))
      refine (yields_callOf (he m hm) callee).bind fun tree => (hmore tree).imp ?_
      intro result _ us rest errors' hcalls _ ts errors hmiddle hcall start hstart
      obtain ⟨inner, paren, arguments, rfl, hp, rfl, harguments⟩ := hcall
      subst hmiddle hstart
      rw [List.length_append, List.length_singleton] at hcalls
      rw [List.append_assoc]
      exact .oneCall (List.mem_singleton.mp hk) harguments hp hcalls
    · exact yields_pure fun start _ _ => .noCalls start callee

theorem yields_call (he : ∀ m < n, YieldsPhrase m expression (.expr .assignment)) :
    YieldsPhrase n (call expression) (.expr .call) := by
  rw [call_eq]
  refine (yields_primary he).bind fun callee => ?_
  refine (yields_moreCalls he callee).imp ?_
  intro result _ us rest errors' hcalls start ts errors hmiddle hcallee
  subst hmiddle
  exact .call hcallee hcalls

theorem yields_unary (he : ∀ m < n, YieldsPhrase m expression (.expr .assignment)) :
    YieldsPhrase n (unary expression) (.expr .unary) := by
  induction n using Nat.strongRecOn with
  | ind n ih =>
    rw [unary_unfold]
    refine yields_accept? (fun operator m hk hm => ?_) ?_
    · have hunary := ih m hm fun k hk => he k (Nat.lt_trans hk hm)
      refine hunary.bind fun right => yields_pure ?_
      intro _ rest _ ts errors _ hright start hstart
      subst hstart
      rw [List.append_nil, List.append_nil]
      exact .unary hk hright
    · exact (yields_call he).imp fun tree start ts rest errors hcall _ => .unaryOfCall hcall

theorem yields_moreOperands (level : Level)
    (ho : YieldsPhrase n (level.operandTier.rule expression) (.expr level.operandTier))
    (left : Expr) : YieldsPhrase n (moreOperands level (level.operandTier.rule expression) left)
      (.operands level left) := by
  induction n using Nat.strongRecOn generalizing left with
  | ind n ih =>
    rw [moreOperands_unfold]
    refine yields_accept? (fun operator m hk hm => ?_) ?_
    · have hom := ho.mono (Nat.le_of_lt hm)
      refine hom.bind fun right => (ih m hm hom (level.join left operator right)).imp ?_
      intro result _ us rest errors' hmore _ ts errors hmiddle hright start hstart
      subst hmiddle hstart
      exact .nextOperand hk hright hmore
    · exact yields_pure fun start _ _ => .lastOperand start level left

theorem yields_binary (level : Level)
    (ho : YieldsPhrase n (level.operandTier.rule expression) (.expr level.operandTier)) :
    YieldsPhrase n ((Tier.binary level).rule expression) (.expr (.binary level)) := by
  rw [Tier.rule_binary, binary_eq]
  refine ho.bind fun first => (yields_moreOperands level ho first).imp ?_
  intro result _ us rest errors' hmore start ts errors hmiddle hfirst
  subst hmiddle
  exact .binary hfirst hmore

theorem yields_operation (he : ∀ m < n, YieldsPhrase m expression (.expr .assignment)) :
    YieldsPhrase n (operation expression) (.expr (.binary .disjunction)) := by
  have hproduct := yields_binary .product (yields_unary he)
  have hsum := yields_binary .sum hproduct
  have hcomparison := yields_binary .comparison hsum
  have hequality := yields_binary .equality hcomparison
  have hconjunction := yields_binary .conjunction hequality
  exact yields_binary .disjunction hconjunction

/-- The value of an assignment to a target, past the equals sign. -/
theorem yields_assigned (he : YieldsPhrase n expression (.expr .assignment)) (target : Expr)
    {equals : Token} (hk : equals.kind = .equal) (here : Nat) :
    Yields n (do
      let value ← expression
      match target with
      | .name line token => return .assign line token value
      | _ =>
        recordError ⟨.invalidAssignmentTarget, equals, here⟩
        return target) fun result middle us _ errors' => ∀ start ts errors,
          middle = here + 1 → here = start + ts.length →
          Spells (.expr (.binary .disjunction) target) start ts errors →
            Spells (.expr .assignment result) start (ts ++ equals :: us) (errors ++ errors') := by
  by_cases hname : ∃ line name, target = .name line name
  · obtain ⟨line, name, rfl⟩ := hname
    refine he.bind fun value => yields_pure ?_
    intro _ rest _ us errors' _ hvalue start ts errors hmiddle hhere htarget
    subst hmiddle hhere
    rw [List.append_nil, List.append_nil]
    exact .assignment htarget hk hvalue
  · have hn : ∀ line name, target ≠ .name line name := fun line name h => hname ⟨line, name, h⟩
    have hrecord : Yields n (do
        let _ ← expression
        recordError ⟨.invalidAssignmentTarget, equals, here⟩
        return target) fun result middle us _ errors' => ∀ start ts errors,
          middle = here + 1 → here = start + ts.length →
          Spells (.expr (.binary .disjunction) target) start ts errors →
            Spells (.expr .assignment result) start (ts ++ equals :: us) (errors ++ errors') := by
      refine he.bind fun value => yields_recordError _ (yields_pure ?_)
      intro _ rest _ us errors' _ hvalue start ts errors hmiddle hhere htarget
      subst hmiddle hhere
      rw [List.append_nil, ← List.append_assoc]
      exact .badAssignment htarget hn hk hvalue
    cases target with
    | name line name => exact absurd rfl (hn line name)
    | _ => exact hrecord

theorem yields_assignment (he : ∀ m < n, YieldsPhrase m expression (.expr .assignment)) :
    YieldsPhrase n (assignment expression) (.expr .assignment) := by
  refine (yields_operation he).bind fun target => yields_position fun here => ?_
  refine yields_accept? (fun equals m hk hm => ?_) ?_
  · refine (yields_assigned (he m hm) target (List.mem_singleton.mp hk) here).imp ?_
    intro result _ us rest errors' hassigned _ hstart hhere start ts errors hmiddle htarget
    subst hhere hstart
    exact hassigned start ts errors rfl hmiddle htarget
  · refine yields_pure ?_
    intro _ rest _ _ start ts errors _ htarget
    rw [List.append_nil, List.append_nil]
    exact .operation htarget

/-- Whatever an expression is read as is spelled by the tokens that were read. -/
theorem yields_expression (n : Nat) : YieldsPhrase n expression (.expr .assignment) := by
  induction n using Nat.strongRecOn with
  | ind n ih =>
    rw [expression_eq]
    exact yields_assignment ih

end ScriptLang.Grammar
