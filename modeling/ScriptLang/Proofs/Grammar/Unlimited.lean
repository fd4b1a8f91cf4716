import ScriptLang.Proofs.Grammar.StatementRules
import ScriptLang.Proofs.Rule.Leniency
import ScriptLang.Syntax.Parse

namespace ScriptLang

namespace Grammar

open Rule

section Leniency

variable {e e' : Rule Expr} {d d' : Rule (Option Stmt)}

theorem eases_primary (he : Eases e e') : Eases (primary e) (primary e') := by
  refine eases_bind (eases_accept? _) fun found => ?_
  cases found with
  | none => exact eases_stop rfl
  | some token =>
    dsimp only
    split
    any_goals exact eases_pure _
    refine eases_bind he fun inner => ?_
    exact eases_bind (eases_expect _ _) fun _ => eases_pure _

theorem eases_itemList {α : Type} {more more' : List α → Rule (List α)}
    (h : ∀ read, Eases (more read) (more' read)) : Eases (itemList more) (itemList more') := by
  refine eases_bind (eases_isNext _) fun isClosed => eases_ite (eases_pure _) ?_
  refine eases_bind (h []) fun first => eases_iterate (fun read => ?_) first
  refine eases_bind (eases_accept? _) fun found => ?_
  cases found with
  | some comma => exact eases_map some (h read)
  | none => exact eases_pure none

theorem eases_binary (level : Level) {operand operand' : Rule Expr} (h : Eases operand operand') :
    Eases (binary level operand) (binary level operand') := by
  refine eases_bind h fun first => eases_iterate (fun left => ?_) first
  refine eases_bind (eases_accept? _) fun found => ?_
  cases found with
  | some operator => exact eases_bind h fun _ => eases_pure _
  | none => exact eases_pure none

theorem eases_atClosingBrace : Eases atClosingBrace atClosingBrace :=
  eases_bind eases_insideBlock fun _ => eases_ite (eases_isNext _) (eases_pure _)

theorem eases_synchronize : Eases synchronize synchronize := by
  refine eases_bind eases_atClosingBrace fun _ => eases_ite (eases_pure _) ?_
  refine eases_bind eases_atEnd fun _ => eases_ite (eases_pure _) ?_
  refine eases_bind eases_next fun dropped => ?_
  refine eases_bind (eases_iterate (fun dropped => ?_) dropped) fun _ => eases_pure _
  refine eases_bind eases_peek fun token => eases_ite (eases_pure _) ?_
  refine eases_bind eases_atClosingBrace fun _ => eases_ite (eases_pure _) ?_
  exact eases_map some eases_next

theorem eases_block (hd : Eases d d') : Eases (block d) (block d') := by
  refine eases_bind (eases_inBlock (eases_iterate (fun statements => ?_) [])) fun statements => ?_
  · refine eases_bind (eases_isNext _) fun _ => eases_ite (eases_pure _) ?_
    refine eases_bind eases_atEnd fun _ => eases_ite (eases_pure _) ?_
    exact eases_bind hd fun _ => eases_pure _
  · exact eases_bind (eases_expect _ _) fun _ => eases_pure _

variable [ListLimit]

theorem eases_item {α : Type} {fault : SyntaxFault} (h : fault.pastLimit = true) {p p' : Rule α}
    (hp : Eases p p') (hs : ∀ c, c.rest = [] → p c = ⟨.ranOut, c, []⟩) (count : Nat) :
    Eases (item fault count p) (@item .unlimited _ fault count p') := by
  have hnone : @item .unlimited _ fault count p' = p' := rfl
  rw [hnone]
  unfold item
  split
  · exact eases_flag h hp hs
  · exact hp

theorem eases_argument (he : Eases e e') (hs : ∀ c, c.rest = [] → e c = ⟨.ranOut, c, []⟩)
    (read : List Expr) : Eases (argument e read) (@argument .unlimited e' read) :=
  eases_item rfl (eases_bind he fun _ => eases_pure _) (fun c hc => bind_of_ranOut (hs c hc)) _

theorem eases_parameter (read : List Token) :
    Eases (parameter read) (@parameter .unlimited read) :=
  eases_item rfl (eases_bind (eases_expectNamed _ _ _) fun _ => eases_pure _)
    (fun _ hc => bind_of_ranOut (accept?_bind_of_nil _ _ hc)) _

theorem eases_call (he : Eases e e') (hs : ∀ c, c.rest = [] → e c = ⟨.ranOut, c, []⟩) :
    Eases (call e) (@call .unlimited e') := by
  refine eases_bind (eases_primary he) fun callee => eases_iterate (fun callee => ?_) callee
  refine eases_bind (eases_accept? _) fun found => ?_
  cases found with
  | some opening =>
    refine eases_bind (eases_itemList (eases_argument he hs)) fun arguments => ?_
    exact eases_bind (eases_expect _ _) fun _ => eases_pure _
  | none => exact eases_pure none

theorem eases_unary (he : Eases e e') (hs : ∀ c, c.rest = [] → e c = ⟨.ranOut, c, []⟩) :
    Eases (unary e) (@unary .unlimited e') := by
  refine eases_fix (fun _ _ hc => accept?_bind_of_nil _ _ hc) fun r r' _ hr => ?_
  refine eases_bind (eases_accept? _) fun found => ?_
  cases found with
  | some operator => exact eases_bind hr fun _ => eases_pure _
  | none => exact eases_call he hs

theorem eases_operation (he : Eases e e') (hs : ∀ c, c.rest = [] → e c = ⟨.ranOut, c, []⟩) :
    Eases (operation e) (@operation .unlimited e') := by
  unfold operation
  induction Level.all with
  | nil => exact eases_unary he hs
  | cons level levels ih => exact eases_binary level ih

theorem eases_assignment (he : Eases e e') (hs : ∀ c, c.rest = [] → e c = ⟨.ranOut, c, []⟩) :
    Eases (assignment e) (@assignment .unlimited e') := by
  refine eases_bind (eases_operation he hs) fun target => ?_
  refine eases_bind eases_position fun equalsPosition => ?_
  refine eases_bind (eases_accept? _) fun found => ?_
  cases found with
  | none => exact eases_pure target
  | some equals =>
    refine eases_bind he fun value => ?_
    split
    · exact eases_pure _
    · exact eases_bind (eases_recordError rfl) fun _ => eases_pure target

theorem eases_expression : Eases expression (@expression .unlimited) :=
  eases_fix assignment_starves fun _ _ hs he => eases_assignment he hs

section Statements

variable {b b' : Rule (List Stmt)}

theorem eases_functionDeclaration (hb : Eases b b') (keyword : Token) :
    Eases (functionDeclaration b keyword) (@functionDeclaration .unlimited b' keyword) := by
  refine eases_bind (eases_expectNamed _ _ _) fun name => ?_
  refine eases_bind (eases_expect _ _) fun _ => ?_
  refine eases_bind (eases_itemList eases_parameter) fun params => ?_
  refine eases_bind (eases_expect _ _) fun _ => ?_
  refine eases_bind (eases_expect _ _) fun brace => ?_
  exact eases_bind hb fun _ => eases_pure _

theorem eases_letDeclaration (keyword : Token) :
    Eases (letDeclaration keyword) (@letDeclaration .unlimited keyword) := by
  refine eases_bind (eases_expectNamed _ _ _) fun name => ?_
  refine eases_bind (eases_expect _ _) fun _ => ?_
  refine eases_bind eases_expression fun initializer => ?_
  exact eases_bind (eases_expect _ _) fun _ => eases_pure _

theorem eases_printStatement (keyword : Token) :
    Eases (printStatement keyword) (@printStatement .unlimited keyword) := by
  refine eases_bind eases_expression fun value => ?_
  exact eases_bind (eases_expect _ _) fun _ => eases_pure _

theorem eases_ifStatement {s s' : Rule Stmt} (hs : Eases s s') (keyword : Token) :
    Eases (ifStatement s keyword) (@ifStatement .unlimited s' keyword) := by
  refine eases_bind (eases_expect _ _) fun _ => ?_
  refine eases_bind eases_expression fun condition => ?_
  refine eases_bind (eases_expect _ _) fun _ => ?_
  refine eases_bind hs fun thenBranch => ?_
  refine eases_bind (eases_accept? _) fun found => ?_
  cases found with
  | some word => exact eases_bind hs fun _ => eases_pure _
  | none => exact eases_pure _

theorem eases_whileStatement {s s' : Rule Stmt} (hs : Eases s s') (keyword : Token) :
    Eases (whileStatement s keyword) (@whileStatement .unlimited s' keyword) := by
  refine eases_bind (eases_expect _ _) fun _ => ?_
  refine eases_bind eases_expression fun condition => ?_
  refine eases_bind (eases_expect _ _) fun _ => ?_
  exact eases_bind hs fun _ => eases_pure _

theorem eases_expressionStatement :
    Eases expressionStatement (@expressionStatement .unlimited) := by
  refine eases_bind eases_expression fun value => ?_
  exact eases_bind (eases_expect _ _) fun _ => eases_pure _

theorem eases_statement (hb : Eases b b') :
    Eases (statement b) (@statement .unlimited b') := by
  refine eases_fix (fun _ _ hc => accept?_bind_of_nil _ _ hc) fun r r' _ hr => ?_
  refine eases_bind (eases_accept? _) fun found => ?_
  cases found with
  | none => exact eases_expressionStatement
  | some token =>
    dsimp only
    split
    · exact eases_printStatement token
    · exact eases_ifStatement hr token
    · exact eases_whileStatement hr token
    · exact eases_bind hb fun _ => eases_pure _

theorem eases_declarationOrStatement (hb : Eases b b') :
    Eases (declarationOrStatement b) (@declarationOrStatement .unlimited b') := by
  refine eases_bind (eases_accept? _) fun found => ?_
  cases found with
  | none => exact eases_statement hb
  | some token =>
    dsimp only
    split
    · exact eases_functionDeclaration hb token
    · exact eases_letDeclaration token

end Statements

theorem eases_declaration : Eases declaration (@declaration .unlimited) := by
  refine eases_fix declarationBody_starves fun r r' _ hr => ?_
  refine eases_rescue (eases_map some (eases_declarationOrStatement (eases_block hr))) ?_
  intro error hfault
  refine eases_bind (eases_recordError hfault) fun _ => ?_
  exact eases_bind eases_synchronize fun _ => eases_pure none

/-- A limit changes nothing but which errors are recorded. -/
theorem eases_program : Eases program (@program .unlimited) := by
  refine eases_iterate (fun statements => ?_) []
  refine eases_bind eases_atEnd fun _ => eases_ite (eases_pure _) ?_
  exact eases_bind eases_declaration fun _ => eases_pure _

end Leniency

end Grammar

/-- Reads all statements of a token list as if lists had no limit. -/
def parseUnlimited (tokens : List Token) : Reading (List Stmt) :=
  @Grammar.program .unlimited (Cursor.start tokens)

/-- Whatever the tokens are, the limit costs nothing but the errors of items past it. -/
theorem parseUnlimited_eq_lenient (tokens : List Token) :
    parseUnlimited tokens = (parse tokens).lenient :=
  (Grammar.eases_program (Cursor.start tokens)).eq_lenient

end ScriptLang
