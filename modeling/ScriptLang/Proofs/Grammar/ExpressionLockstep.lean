import ScriptLang.Proofs.Grammar.Spelling
import ScriptLang.Proofs.Rule.Lockstep

namespace ScriptLang

section Trees

variable (R : Token → Token → Prop)

/-- Expressions of one shape: the tokens that they hold, and those that their lines and values come
from, correspond. -/
inductive Expr.Mirrors : Expr → Expr → Prop
  | literal {token token'} (h : R token token') :
    Mirrors (.literal token.line token.value) (.literal token'.line token'.value)
  | grouping {opening opening' inner inner'} (ho : R opening opening')
    (h : Mirrors inner inner') :
    Mirrors (.grouping opening.line inner) (.grouping opening'.line inner')
  | unary {operator operator' right right'} (ho : R operator operator')
    (h : Mirrors right right') :
    Mirrors (.unary operator.line operator right) (.unary operator'.line operator' right')
  | binary {left left' operator operator' right right'} (hl : Mirrors left left')
    (ho : R operator operator') (hr : Mirrors right right') :
    Mirrors (.binary left.line left operator right) (.binary left'.line left' operator' right')
  | logical {left left' operator operator' right right'} (hl : Mirrors left left')
    (ho : R operator operator') (hr : Mirrors right right') :
    Mirrors (.logical left.line left operator right) (.logical left'.line left' operator' right')
  | name {token token'} (h : R token token') :
    Mirrors (.name token.line token) (.name token'.line token')
  | assign {target target' value value'} (ht : R target target') (hv : Mirrors value value') :
    Mirrors (.assign target.line target value) (.assign target'.line target' value')
  | call {callee callee' paren paren' arguments arguments'} (hc : Mirrors callee callee')
    (hp : R paren paren') (ha : List.Forall₂ Mirrors arguments arguments') :
    Mirrors (.call callee.line callee paren arguments)
      (.call callee'.line callee' paren' arguments')

variable {R}

mutual

/-- Trees whose tokens are the same are the same. -/
theorem Expr.Mirrors.eq (hR : ∀ token token', R token token' → token = token')
    {tree tree' : Expr} : tree.Mirrors R tree' → tree = tree'
  | .literal h => by rw [hR _ _ h]
  | .grouping ho h => by rw [hR _ _ ho, h.eq hR]
  | .unary ho h => by rw [hR _ _ ho, h.eq hR]
  | .binary hl ho hr => by rw [hl.eq hR, hR _ _ ho, hr.eq hR]
  | .logical hl ho hr => by rw [hl.eq hR, hR _ _ ho, hr.eq hR]
  | .name h => by rw [hR _ _ h]
  | .assign ht hv => by rw [hR _ _ ht, hv.eq hR]
  | .call hc hp ha => by rw [hc.eq hR, hR _ _ hp, Expr.Mirrors.list_eq hR ha]

theorem Expr.Mirrors.list_eq (hR : ∀ token token', R token token' → token = token')
    {trees trees' : List Expr} : List.Forall₂ (Expr.Mirrors R) trees trees' → trees = trees'
  | .nil => rfl
  | .cons h hs => by rw [Expr.Mirrors.eq hR h, Expr.Mirrors.list_eq hR hs]

end

theorem Expr.Mirrors.join (level : Grammar.Level) {left left' right right' : Expr}
    {operator operator' : Token} (hl : left.Mirrors R left') (ho : R operator operator')
    (hr : right.Mirrors R right') :
    (level.join left operator right).Mirrors R (level.join left' operator' right') := by
  cases level with
  | disjunction | conjunction => exact .logical hl ho hr
  | _ => exact .binary hl ho hr

end Trees

namespace Pairing

open Rule Grammar

variable {P : Pairing} {n : Nat}

abbrev Exprs (P : Pairing) : Expr → Expr → Prop := Expr.Mirrors P.Tokens

theorem inStep_literal {token token' : Token} (h : P.Tokens token token') {value value' : Literal}
    (hv : value = token.value) (hv' : value' = token'.value) :
    P.InStep n P.Exprs (pure (.literal token.line value)) (pure (.literal token'.line value')) := by
  subst hv hv'
  exact inStep_pure (.literal h)

theorem inStep_primary (he : ∀ m < n, P.InStep m P.Exprs expression expression) :
    P.InStep n P.Exprs (primary expression) (primary expression) := by
  refine inStep_accept? (fun token token' m h hk hm => ?_) (inStep_stop _)
  obtain ⟨index, hfaces⟩ := id h
  have hkind := P.kind_eq hfaces
  dsimp only
  rw [hkind]
  simp only [List.mem_cons, List.not_mem_nil, or_false] at hk
  obtain hk | hk | hk | hk | hk | hk | hk := hk <;> rw [hk] at hkind <;> rw [hk] <;> dsimp only
  any_goals exact inStep_literal h (by rw [Token.value, hk]) (by rw [Token.value, hkind])
  · exact inStep_pure (.name h)
  · refine inStep_bind (he m hm) fun inner inner' hinner => ?_
    exact inStep_bind (inStep_expect _ _) fun _ _ _ => inStep_pure (.grouping h hinner)

theorem inStep_item {fault : SyntaxFault} {α : Type} {R : α → α → Prop} {r r' : Rule α}
    (h : P.InStep n R r r') (count : Nat) :
    P.InStep n R (item fault count r) (item fault count r') := by
  rw [item_eq, item_eq]
  split
  · exact inStep_bind (inStep_flag _) fun _ _ _ => h
  · exact h

theorem inStep_itemList {α : Type} {R : α → α → Prop} {more : List α → Rule (List α)}
    (hagree : ∀ read m, Agree .expression m (more read) (more read))
    (h : ∀ read read', List.Forall₂ R read read' →
      P.InStep n (List.Forall₂ R) (more read) (more read')) :
    P.InStep n (List.Forall₂ R) (itemList more) (itemList more) := by
  rw [itemList_eq]
  refine inStep_bind (inStep_isNext _) fun isClosed _ heq => ?_
  subst heq
  split
  · exact inStep_pure .nil
  · refine inStep_bind (h [] [] .nil) fun first first' hfirst => ?_
    refine inStep_loop .expression (fun read _ m => hagree read m) ?_ hfirst
    exact fun _ _ _ _ _ hread _ hm => (h _ _ hread).mono (Nat.le_of_lt hm)

theorem inStep_argument (he : P.InStep n P.Exprs expression expression) (read read' : List Expr)
    (hread : List.Forall₂ P.Exprs read read') :
    P.InStep n (List.Forall₂ P.Exprs) (argument expression read) (argument expression read') := by
  unfold argument
  rw [hread.length_eq]
  exact inStep_item (inStep_bind he fun _ _ h => inStep_pure (List.rel_append hread (.cons h .nil)))
    _

theorem inStep_arguments (he : P.InStep n P.Exprs expression expression) :
    P.InStep n (List.Forall₂ P.Exprs) (arguments expression) (arguments expression) :=
  inStep_itemList (fun read m => agree_argument (agree_expression m) read) (inStep_argument he)

theorem inStep_callOf (he : P.InStep n P.Exprs expression expression) {callee callee' : Expr}
    (hc : P.Exprs callee callee') :
    P.InStep n P.Exprs (callOf expression callee) (callOf expression callee') := by
  refine inStep_bind (inStep_arguments he) fun arguments arguments' ha => ?_
  exact inStep_bind (inStep_expect _ _) fun paren paren' hp => inStep_pure (.call hc hp ha)

theorem inStep_call (he : ∀ m < n, P.InStep m P.Exprs expression expression) :
    P.InStep n P.Exprs (call expression) (call expression) := by
  rw [call_eq]
  refine inStep_bind (inStep_primary he) fun callee callee' hc => ?_
  refine inStep_loop .expression (fun callee _ m => agree_callOf (agree_expression m) callee) ?_ hc
  exact fun _ _ _ _ m hcallee _ hm => inStep_callOf (he m hm) hcallee

theorem inStep_unary (he : ∀ m < n, P.InStep m P.Exprs expression expression) :
    P.InStep n P.Exprs (unary expression) (unary expression) := by
  induction n using Nat.strongRecOn with
  | ind n ih =>
    rw [unary_unfold]
    refine inStep_accept? (fun operator operator' m ho _ hm => ?_) (inStep_call he)
    refine inStep_bind (ih m hm fun k hk => he k (Nat.lt_trans hk hm)) fun right right' h => ?_
    exact inStep_pure (.unary ho h)

theorem inStep_binary (level : Level)
    (ho : P.InStep n P.Exprs (level.operandTier.rule expression)
      (level.operandTier.rule expression)) :
    P.InStep n P.Exprs ((Tier.binary level).rule expression)
      ((Tier.binary level).rule expression) := by
  rw [Tier.rule_binary, binary_eq]
  refine inStep_bind ho fun left left' hl => ?_
  refine inStep_loop .expression (fun left operator m => agree_map _ (agree_tier _ m)) ?_ hl
  intro left left' operator operator' m hleft hoperator hm
  exact inStep_map (ho.mono (Nat.le_of_lt hm)) fun _ _ hright => hleft.join level hoperator hright

theorem inStep_operation (he : ∀ m < n, P.InStep m P.Exprs expression expression) :
    P.InStep n P.Exprs (operation expression) (operation expression) := by
  have hproduct := inStep_binary .product (inStep_unary he)
  have hsum := inStep_binary .sum hproduct
  have hcomparison := inStep_binary .comparison hsum
  have hequality := inStep_binary .equality hcomparison
  have hconjunction := inStep_binary .conjunction hequality
  exact inStep_binary .disjunction hconjunction

/-- The value of an assignment to a target, past the equals sign. -/
theorem inStep_assigned (he : P.InStep n P.Exprs expression expression) {target target' : Expr}
    (ht : P.Exprs target target') {equals equals' : Token} {index : Nat}
    (h : P.faces index equals equals') :
    P.InStep n P.Exprs
      (do
        let value ← expression
        match target with
        | .name line token => return .assign line token value
        | _ =>
          recordError ⟨.invalidAssignmentTarget, equals, index⟩
          return target)
      (do
        let value ← expression
        match target' with
        | .name line token => return .assign line token value
        | _ =>
          recordError ⟨.invalidAssignmentTarget, equals', index + P.shift⟩
          return target') := by
  refine inStep_bind he fun value value' hv => ?_
  have hkept := ht
  cases ht with
  | name hn => exact inStep_pure (.assign hn hv)
  | _ => exact inStep_bind (inStep_recordError ⟨rfl, h, rfl⟩) fun _ _ _ => inStep_pure hkept

theorem inStep_expression (n : Nat) : P.InStep n P.Exprs expression expression := by
  induction n using Nat.strongRecOn with
  | ind n ih =>
    rw [expression_eq]
    refine inStep_bind (inStep_operation ih) fun target target' ht => ?_
    refine inStep_position_accept? ?_ fun _ => inStep_pure ht
    exact fun index equals equals' m h _ hm => inStep_assigned (ih m hm) ht h

end Pairing

end ScriptLang
