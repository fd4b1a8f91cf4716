import ScriptLang.Proofs.Grammar.Ebnf
import ScriptLang.Proofs.Grammar.Forming

namespace ScriptLang.Grammar

def Tier.symbol : Tier → Symbol
  | assignment => .assignment
  | binary .disjunction => .logicOr
  | binary .conjunction => .logicAnd
  | binary .equality => .equality
  | binary .comparison => .comparison
  | binary .sum => .term
  | binary .product => .factor
  | unary => .unary
  | call => .call
  | primary => .primary

def Level.operator : Level → Ebnf
  | disjunction => .token .orWord
  | conjunction => .token .andWord
  | equality => .choice (.token .bangEqual) [.token .equalEqual]
  | comparison => .choice (.token .greater) [.token .greaterEqual, .token .less, .token .lessEqual]
  | sum => .choice (.token .minus) [.token .plus]
  | product => .choice (.token .slash) [.token .star, .token .percent]

theorem production_binary (level : Level) : production (Tier.binary level).symbol =
    .operands level.operandTier.symbol level.operator := by
  cases level <;> rfl

section Within

variable (allowed : SyntaxFault → Prop)

def AllWithin (errors : List SyntaxError) : Prop := ∀ error ∈ errors, allowed error.fault

def SpellsWithin (phrase : Phrase) (start : Nat) (ts : List Token) : Prop :=
  ∃ errors, Spells phrase start ts errors ∧ AllWithin allowed errors

def FormsWithin (clause : Clause) (start : Nat) (ts : List Token) : Prop :=
  ∃ errors, Forms .none clause start ts errors [] ∧ AllWithin allowed errors

def IsPhraseWithin (tier : Tier) (start : Nat) (ts : List Token) : Prop :=
  ∃ tree, SpellsWithin allowed (.expr tier tree) start ts

def FormsStatementWithin (start : Nat) (ts : List Token) : Prop :=
  ∃ tree, FormsWithin allowed (.statement tree) start ts

/-- What a symbol says of tokens: that they have a tree of its kind, with errors that are
allowed. -/
def Symbol.HasTreeWithin : Symbol → Nat → List Token → Prop
  | program, start, ts => ∃ trees inner mark, ts = inner ++ [mark] ∧
      FormsWithin allowed (.sequence trees) start inner
  | declaration, start, ts | fnDecl, start, ts | letDecl, start, ts =>
      ∃ tree, FormsWithin allowed (.declaration tree) start ts
  | parameters, start, ts => ∃ names errors, SpellsNames names start ts errors ∧
      AllWithin allowed errors
  | statement, start, ts | exprStmt, start, ts | printStmt, start, ts | ifStmt, start, ts
  | whileStmt, start, ts => FormsStatementWithin allowed start ts
  | block, start, ts => ∃ trees opening inner closing, ts = opening :: (inner ++ [closing]) ∧
      opening.kind = .leftBrace ∧ closing.kind = .rightBrace ∧
      FormsWithin allowed (.body trees) (start + 1) inner
  | arguments, start, ts => ∃ trees, SpellsWithin allowed (.arguments trees) start ts
  | expression, start, ts | assignment, start, ts => IsPhraseWithin allowed .assignment start ts
  | logicOr, start, ts => IsPhraseWithin allowed (.binary .disjunction) start ts
  | logicAnd, start, ts => IsPhraseWithin allowed (.binary .conjunction) start ts
  | equality, start, ts => IsPhraseWithin allowed (.binary .equality) start ts
  | comparison, start, ts => IsPhraseWithin allowed (.binary .comparison) start ts
  | term, start, ts => IsPhraseWithin allowed (.binary .sum) start ts
  | factor, start, ts => IsPhraseWithin allowed (.binary .product) start ts
  | unary, start, ts => IsPhraseWithin allowed .unary start ts
  | call, start, ts => IsPhraseWithin allowed .call start ts
  | primary, start, ts => IsPhraseWithin allowed .primary start ts

end Within

section Trees

variable {allowed : SyntaxFault → Prop} {start : Nat} {ts : List Token}

theorem AllWithin.nil : AllWithin allowed [] := List.forall_mem_nil _

theorem allWithin_append {errors errors' : List SyntaxError} :
    AllWithin allowed (errors ++ errors') ↔ AllWithin allowed errors ∧ AllWithin allowed errors' :=
  List.forall_mem_append

theorem AllWithin.append {errors errors' : List SyntaxError} (h : AllWithin allowed errors)
    (h' : AllWithin allowed errors') : AllWithin allowed (errors ++ errors') :=
  allWithin_append.mpr ⟨h, h'⟩

/-- One more item is within the limit, or the error of it is allowed. -/
theorem allWithin_overflow {fault : SyntaxFault} {count : Nat}
    (h : allowed fault ∨ count < maxArguments) (token : Token) (start : Nat) :
    AllWithin allowed (overflow fault count token start) := by
  by_cases hfew : count < maxArguments
  · rw [overflow_eq_nil_iff.mpr hfew]
    exact .nil
  · unfold overflow
    rw [if_pos (Nat.le_of_not_lt hfew)]
    exact List.forall_mem_singleton.mpr (h.resolve_right hfew)

theorem hasTreeWithin_symbol (tier : Tier) (h : tier.symbol.HasTreeWithin allowed start ts) :
    IsPhraseWithin allowed tier start ts := by
  cases tier with
  | binary level => cases level <;> exact h
  | _ => exact h

theorem means_operator {level : Level} {p : Symbol → Nat → List Token → Prop}
    (h : level.operator.Means p start ts) :
    ∃ token, ts = [token] ∧ token.kind ∈ level.operators := by
  cases level with
  | disjunction | conjunction =>
    obtain ⟨token, rfl, hk⟩ := h
    exact ⟨token, rfl, by rw [hk]; decide⟩
  | equality | sum =>
    obtain ⟨token, rfl, hk⟩ | ⟨token, rfl, hk⟩ := h <;>
      exact ⟨token, rfl, by rw [hk]; decide⟩
  | comparison =>
    obtain ⟨token, rfl, hk⟩ | ⟨token, rfl, hk⟩ | ⟨token, rfl, hk⟩ | ⟨token, rfl, hk⟩ := h <;>
      exact ⟨token, rfl, by rw [hk]; decide⟩
  | product =>
    obtain ⟨token, rfl, hk⟩ | ⟨token, rfl, hk⟩ | ⟨token, rfl, hk⟩ := h <;>
      exact ⟨token, rfl, by rw [hk]; decide⟩

theorem spells_operands {level : Level} {bound : Nat} (left : Expr)
    (h : Repeats (Ebnf.Means (Symbol.HasTreeWithin allowed)
      (.seq level.operator (.symbol level.operandTier.symbol))) bound start ts) :
    ∃ result, SpellsWithin allowed (.operands level left result) start ts := by
  induction h generalizing left with
  | last bound start => exact ⟨left, [], .lastOperand start level left, .nil⟩
  | next h _ ih =>
    obtain ⟨_, us, rfl, hoperator, hoperand⟩ := h
    obtain ⟨operator, rfl, hk⟩ := means_operator hoperator
    obtain ⟨right, _, hright, hallowed⟩ := hasTreeWithin_symbol _ hoperand
    obtain ⟨result, _, hmore, hallowed'⟩ := ih (level.join left operator right)
    rw [List.length_append, List.length_singleton, ← Nat.add_assoc] at hmore
    exact ⟨result, _, .nextOperand hk hright hmore, hallowed.append hallowed'⟩

theorem isPhraseWithin_binary (level : Level)
    (h : (production (Tier.binary level).symbol).Means (Symbol.HasTreeWithin allowed) start ts) :
    IsPhraseWithin allowed (.binary level) start ts := by
  rw [production_binary] at h
  obtain ⟨us, vs, rfl, hfirst, bound, hmore⟩ := h
  obtain ⟨first, _, hfirst, hallowed⟩ := hasTreeWithin_symbol _ hfirst
  obtain ⟨result, _, hmore, hallowed'⟩ := spells_operands first hmore
  exact ⟨result, _, .binary hfirst hmore, hallowed.append hallowed'⟩

theorem spells_calls {bound : Nat} (callee : Expr)
    (h : Repeats (Ebnf.Means (Symbol.HasTreeWithin allowed) (.sequence (.token .leftParen)
      [.opt (.symbol .arguments), .token .rightParen])) bound start ts) :
    ∃ result, SpellsWithin allowed (.calls callee result) start ts := by
  induction h generalizing callee with
  | last bound start => exact ⟨callee, [], .noCalls start callee, .nil⟩
  | @next bound start _ vs h _ ih =>
    obtain ⟨_, _, rfl, ⟨opening, rfl, ho⟩, us, _, rfl, harguments, paren, rfl, hp⟩ := h
    have htrees : ∃ trees, SpellsWithin allowed (.arguments trees) (start + 1) us := by
      obtain rfl | harguments := harguments
      · exact ⟨[], [], .noArguments _, .nil⟩
      · exact harguments
    obtain ⟨trees, _, harguments, hallowed⟩ := htrees
    obtain ⟨result, _, hmore, hallowed'⟩ := ih (.call callee.line callee paren trees)
    have hlength : start + ([opening] ++ (us ++ [paren])).length = start + 1 + (us.length + 1) := by
      simp only [List.length_cons, List.length_append, List.length_nil]
      omega
    rw [hlength] at hmore
    have hcall := Spells.oneCall ho harguments hp hmore
    rw [List.append_cons, ← List.cons_append] at hcall
    exact ⟨result, _, hcall, hallowed.append hallowed'⟩

theorem spells_moreArguments {bound : Nat} (read : List Expr)
    (hbound : allowed .tooManyArguments ∨ read.length + bound ≤ maxArguments)
    (h : Repeats (Ebnf.Means (Symbol.HasTreeWithin allowed)
      (.seq (.token .comma) (.symbol .expression))) bound start ts) :
    ∃ trees, SpellsWithin allowed (.moreArguments read trees) start ts := by
  induction h generalizing read with
  | last bound start => exact ⟨read, [], .lastArgument start read, .nil⟩
  | @next bound start _ vs h _ ih =>
    obtain ⟨_, us, rfl, ⟨comma, rfl, hc⟩, tree, _, htree, hallowed⟩ := h
    have hbound' : allowed .tooManyArguments ∨
        (read ++ [tree]).length + bound ≤ maxArguments := by
      refine hbound.imp_right fun hroom => ?_
      rw [List.length_append, List.length_singleton]
      omega
    obtain ⟨trees, _, hmore, hallowed'⟩ := ih (read ++ [tree]) hbound'
    -- the error past the limit would be at the first token of the argument
    obtain ⟨head, rest, rfl, -⟩ := htree.begins
    have hlength : start + ([comma] ++ head :: rest).length = start + 1 + (rest.length + 1) := by
      simp only [List.length_cons, List.length_append, List.length_nil]
      omega
    rw [hlength] at hmore
    have hroom : allowed .tooManyArguments ∨ read.length < maxArguments :=
      hbound.imp_right fun hroom => by omega
    have hoverflow := allWithin_overflow hroom head (start + 1)
    exact ⟨trees, _, .nextArgument hc htree hmore, (hoverflow.append hallowed).append hallowed'⟩

theorem spells_moreNames {bound : Nat} (read : List Token)
    (hbound : allowed .tooManyParameters ∨ read.length + bound ≤ maxArguments)
    (h : Repeats (Ebnf.Means (Symbol.HasTreeWithin allowed)
      (.seq (.token .comma) (.token .identifier))) bound start ts) :
    ∃ names errors, SpellsMoreNames read names start ts errors ∧ AllWithin allowed errors := by
  induction h generalizing read with
  | last bound start => exact ⟨read, [], .last start read, .nil⟩
  | @next bound start _ vs h _ ih =>
    obtain ⟨_, _, rfl, ⟨comma, rfl, hc⟩, name, rfl, hn⟩ := h
    have hbound' : allowed .tooManyParameters ∨
        (read ++ [name]).length + bound ≤ maxArguments := by
      refine hbound.imp_right fun hroom => ?_
      rw [List.length_append, List.length_singleton]
      omega
    obtain ⟨names, _, hmore, hallowed⟩ := ih (read ++ [name]) hbound'
    have hroom : allowed .tooManyParameters ∨ read.length < maxArguments :=
      hbound.imp_right fun hroom => by omega
    have hoverflow := allWithin_overflow hroom name (start + 1)
    exact ⟨names, _, .next hc hn hmore, hoverflow.append hallowed⟩

theorem forms_sequence {bound : Nat}
    (h : Repeats (Ebnf.Means (Symbol.HasTreeWithin allowed) (.symbol .declaration)) bound start
      ts) : ∃ trees, FormsWithin allowed (.sequence trees) start ts := by
  induction h with
  | last bound start => exact ⟨[], [], .nil start, .nil⟩
  | next h _ ih =>
    obtain ⟨tree, _, htree, hallowed⟩ := h
    obtain ⟨trees, _, hmore, hallowed'⟩ := ih
    exact ⟨tree :: trees, _, .cons htree hmore, hallowed.append hallowed'⟩

/-- An else after a statement goes to the nearest conditional that has none. -/
theorem forms_else {us vs : List Token} {errors : List SyntaxError} {skipped : List Span}
    {clause : Clause} {word : Token} {elseBranch : Stmt} (hw : word.kind = .elseWord)
    (h : Forms .none clause start us errors skipped) :
    ∀ tree, clause = .statement tree → AllWithin allowed errors → tree.dangling →
      FormsWithin allowed (.statement elseBranch) (start + us.length + 1) vs →
      FormsStatementWithin allowed start (us ++ word :: vs) := by
  induction h with
  | @ifThen start keyword opening ts closing us condition thenBranch errors errors' skipped
      hk ho hc hp ht ih =>
    intro tree htree herrors _ helse
    obtain ⟨hcondition, hthen⟩ := allWithin_append.mp herrors
    have hskipped := ht.skipped_eq_nil
    subst hskipped
    have hlength : start + (keyword :: opening :: (ts ++ closing :: us)).length + 1 =
        start + 2 + ts.length + 1 + us.length + 1 := by
      simp only [List.length_cons, List.length_append]
      omega
    rw [hlength] at helse
    have hassoc : keyword :: opening :: (ts ++ closing :: us) ++ word :: vs =
        keyword :: opening :: (ts ++ closing :: (us ++ word :: vs)) := by simp
    rw [hassoc]
    -- an inner conditional is nearer to the else than this one
    by_cases hd : thenBranch.dangling
    · obtain ⟨_, _, hbranch, hallowed⟩ := ih thenBranch rfl hthen hd helse
      exact ⟨_, _, .ifThen hk ho hc hp hbranch, hcondition.append hallowed⟩
    · obtain ⟨_, helse, hallowed⟩ := helse
      exact ⟨_, _, .ifElse hk ho hc hp ht (by simpa using hd) hw helse,
        hcondition.append (hthen.append hallowed)⟩
  | @ifElse start keyword opening ts closing us other ws condition thenBranch last errors errors'
      errors'' skipped skipped' hk ho hc hp ht hd hother he _ ih =>
    intro tree htree herrors hdangling helse
    obtain rfl := Clause.statement.inj htree
    obtain ⟨hcondition, hbranches⟩ := allWithin_append.mp herrors
    obtain ⟨hthen, hlast⟩ := allWithin_append.mp hbranches
    have hskipped := ht.skipped_eq_nil
    subst hskipped
    have hlength :
        start + (keyword :: opening :: (ts ++ closing :: (us ++ other :: ws))).length + 1 =
        start + 2 + ts.length + 1 + us.length + 1 + ws.length + 1 := by
      simp only [List.length_cons, List.length_append]
      omega
    rw [hlength] at helse
    have hassoc : keyword :: opening :: (ts ++ closing :: (us ++ other :: ws)) ++ word :: vs =
        keyword :: opening :: (ts ++ closing :: (us ++ other :: (ws ++ word :: vs))) := by simp
    rw [hassoc]
    obtain ⟨last', _, hlast', hallowed⟩ := ih last rfl hlast hdangling helse
    exact ⟨_, _, .ifElse hk ho hc hp ht hd hother hlast',
      hcondition.append (hthen.append hallowed)⟩
  | @whileLoop start keyword opening ts closing us condition last errors errors' skipped
      hk ho hc hp hb ih =>
    intro tree htree herrors hdangling helse
    obtain rfl := Clause.statement.inj htree
    obtain ⟨hcondition, hbody⟩ := allWithin_append.mp herrors
    have hlength : start + (keyword :: opening :: (ts ++ closing :: us)).length + 1 =
        start + 2 + ts.length + 1 + us.length + 1 := by
      simp only [List.length_cons, List.length_append]
      omega
    rw [hlength] at helse
    have hassoc : keyword :: opening :: (ts ++ closing :: us) ++ word :: vs =
        keyword :: opening :: (ts ++ closing :: (us ++ word :: vs)) := by simp
    rw [hassoc]
    obtain ⟨last', _, hlast', hallowed⟩ := ih last rfl hbody hdangling helse
    exact ⟨_, _, .whileLoop hk ho hc hp hlast', hcondition.append hallowed⟩
  | expression | print | block =>
    intro tree htree _ hdangling
    obtain rfl := Clause.statement.inj htree
    cases hdangling
  | _ =>
    intro tree htree
    cases htree

theorem isPhraseWithin_primary
    (h : (production .primary).Means (Symbol.HasTreeWithin allowed) start ts) :
    IsPhraseWithin allowed .primary start ts := by
  have hliteral : ∀ kind ∈ literalKinds,
      (Ebnf.token kind).Means (Symbol.HasTreeWithin allowed) start ts →
        IsPhraseWithin allowed .primary start ts := by
    rintro kind hkind ⟨token, rfl, rfl⟩
    exact ⟨_, _, .literal start hkind, .nil⟩
  obtain h | h | h | h | h | h | h := h
  · exact hliteral .number (by decide) h
  · exact hliteral .string (by decide) h
  · exact hliteral .trueWord (by decide) h
  · exact hliteral .falseWord (by decide) h
  · exact hliteral .nullWord (by decide) h
  · obtain ⟨_, _, rfl, ⟨opening, rfl, ho⟩, us, _, rfl, ⟨inner, _, hinner, hallowed⟩, closing, rfl,
      hc⟩ := h
    exact ⟨_, _, .grouping ho hinner hc, hallowed⟩
  · obtain ⟨token, rfl, hk⟩ := h
    exact ⟨_, _, .name start hk, .nil⟩

theorem isPhraseWithin_unary
    (h : (production .unary).Means (Symbol.HasTreeWithin allowed) start ts) :
    IsPhraseWithin allowed .unary start ts := by
  obtain ⟨_, us, rfl, hoperator, right, _, hright, hallowed⟩ | ⟨tree, _, htree, hallowed⟩ := h
  · obtain ⟨operator, rfl, hk⟩ | ⟨operator, rfl, hk⟩ := hoperator <;>
      exact ⟨_, _, .unary (by rw [hk]; decide) hright, hallowed⟩
  · exact ⟨tree, _, .unaryOfCall htree, hallowed⟩

theorem isPhraseWithin_assignment
    (h : (production .assignment).Means (Symbol.HasTreeWithin allowed) start ts) :
    IsPhraseWithin allowed .assignment start ts := by
  obtain ⟨_, _, rfl, ⟨name, rfl, hk⟩, _, us, rfl, ⟨equals, rfl, he⟩, value, _, hvalue,
    hallowed⟩ | ⟨tree, _, htree, hallowed⟩ := h
  · exact ⟨_, _, .assignment (spells_name start hk) he hvalue, hallowed⟩
  · exact ⟨tree, _, .operation htree, hallowed⟩

theorem formsStatementWithin_ifStmt
    (h : (production .ifStmt).Means (Symbol.HasTreeWithin allowed) start ts) :
    FormsStatementWithin allowed start ts := by
  obtain ⟨_, _, rfl, ⟨keyword, rfl, hk⟩, _, _, rfl, ⟨opening, rfl, ho⟩, us, _, rfl,
    ⟨condition, _, hc, hcondition⟩, _, _, rfl, ⟨closing, rfl, hp⟩, vs, ws, rfl,
    ⟨thenBranch, _, ht, hbranch⟩, helse⟩ := h
  have hthen : Forms .none (.statement (.ifThen keyword.line condition thenBranch)) start
      (keyword :: opening :: (us ++ closing :: vs)) _ [] := .ifThen hk ho hc hp ht
  obtain rfl | ⟨_, xs, rfl, ⟨word, rfl, hw⟩, elseBranch, he⟩ := helse
  · rw [List.append_nil]
    exact ⟨_, _, hthen, hcondition.append hbranch⟩
  · have hlength : start + (keyword :: opening :: (us ++ closing :: vs)).length + 1 =
        start + 1 + 1 + us.length + 1 + vs.length + 1 := by
      simp only [List.length_cons, List.length_append]
      omega
    have hlast : FormsWithin allowed (.statement elseBranch)
        (start + (keyword :: opening :: (us ++ closing :: vs)).length + 1) xs := by
      rw [hlength]
      exact he
    have hassoc : keyword :: opening :: (us ++ closing :: (vs ++ word :: xs)) =
        keyword :: opening :: (us ++ closing :: vs) ++ word :: xs := by simp
    -- the conditional without its else is a tree already, to which the else is given
    change FormsStatementWithin allowed start
      (keyword :: opening :: (us ++ closing :: (vs ++ word :: xs)))
    rw [hassoc]
    exact forms_else hw hthen _ rfl (hcondition.append hbranch) rfl hlast

theorem hasTreeWithin_arguments {bound : Nat} {us vs : List Token}
    (hbound : allowed .tooManyArguments ∨ 1 + bound ≤ maxArguments)
    (hfirst : IsPhraseWithin allowed .assignment start us)
    (hmore : Repeats (Ebnf.Means (Symbol.HasTreeWithin allowed)
      (.seq (.token .comma) (.symbol .expression))) bound (start + us.length) vs) :
    Symbol.arguments.HasTreeWithin allowed start (us ++ vs) := by
  obtain ⟨first, _, hfirst, hallowed⟩ := hfirst
  obtain ⟨trees, _, hmore, hallowed'⟩ := spells_moreArguments [first] hbound hmore
  exact ⟨trees, _, .someArguments hfirst hmore, hallowed.append hallowed'⟩

theorem hasTreeWithin_parameters {bound : Nat} {name : Token} {us : List Token}
    (hbound : allowed .tooManyParameters ∨ 1 + bound ≤ maxArguments)
    (hn : name.kind = .identifier)
    (hmore : Repeats (Ebnf.Means (Symbol.HasTreeWithin allowed)
      (.seq (.token .comma) (.token .identifier))) bound (start + 1) us) :
    Symbol.parameters.HasTreeWithin allowed start (name :: us) := by
  obtain ⟨names, _, hmore, hallowed⟩ := spells_moreNames [name] hbound hmore
  exact ⟨names, _, .some hn hmore, hallowed⟩

/-- Every production bears out that its symbol has a tree. -/
theorem hasTreeWithin_of_production (name : Symbol)
    (h : (production name).Means (Symbol.HasTreeWithin allowed) start ts) :
    name.HasTreeWithin allowed start ts := by
  cases name with
  | program =>
    obtain ⟨inner, _, rfl, ⟨bound, hlist⟩, mark, rfl, -⟩ := h
    obtain ⟨trees, htrees⟩ := forms_sequence hlist
    exact ⟨trees, inner, mark, rfl, htrees⟩
  | declaration =>
    obtain h | h | ⟨tree, _, htree, hallowed⟩ := h
    · exact h
    · exact h
    · exact ⟨tree, _, .statement htree, hallowed⟩
  | fnDecl =>
    obtain ⟨_, _, rfl, ⟨keyword, rfl, hk⟩, _, _, rfl, ⟨name, rfl, hn⟩, _, _, rfl,
      ⟨opening, rfl, ho⟩, us, _, rfl, hparams, _, _, rfl, ⟨closing, rfl, hc⟩, trees, brace, inner,
      ending, rfl, hb, he, _, htrees, hallowed'⟩ := h
    -- no parameters at all are an empty list of names
    have hnames : ∃ names errors, SpellsNames names (start + 3) us errors ∧
        AllWithin allowed errors := by
      obtain rfl | hparams := hparams
      · exact ⟨[], [], .none _, .nil⟩
      · exact hparams
    obtain ⟨names, _, hnames, hallowed⟩ := hnames
    exact ⟨_, _, .function hk hn ho hnames hc hb htrees he, hallowed.append hallowed'⟩
  | parameters =>
    obtain ⟨_, us, rfl, ⟨name, rfl, hn⟩, hmore⟩ := h
    exact hasTreeWithin_parameters (.inr (Nat.le_refl _)) hn hmore
  | letDecl =>
    obtain ⟨_, _, rfl, ⟨keyword, rfl, hk⟩, _, _, rfl, ⟨name, rfl, hn⟩, _, _, rfl,
      ⟨equals, rfl, he⟩, us, _, rfl, ⟨value, _, hv, hallowed⟩, semicolon, rfl, hs⟩ := h
    exact ⟨_, _, .letBinding hk hn he hv hs, hallowed⟩
  | statement =>
    obtain h | h | h | h | ⟨trees, opening, inner, closing, rfl, ho, hc, _, htrees, hallowed⟩ := h
    · exact h
    · exact h
    · exact h
    · exact h
    · exact ⟨_, _, .block ho htrees hc, hallowed⟩
  | exprStmt =>
    obtain ⟨us, _, rfl, ⟨value, _, hv, hallowed⟩, semicolon, rfl, hs⟩ := h
    exact ⟨_, _, .expression hv hs, hallowed⟩
  | printStmt =>
    obtain ⟨_, _, rfl, ⟨keyword, rfl, hk⟩, us, _, rfl, ⟨value, _, hv, hallowed⟩, semicolon, rfl,
      hs⟩ := h
    exact ⟨_, _, .print hk hv hs, hallowed⟩
  | ifStmt => exact formsStatementWithin_ifStmt h
  | whileStmt =>
    obtain ⟨_, _, rfl, ⟨keyword, rfl, hk⟩, _, _, rfl, ⟨opening, rfl, ho⟩, us, _, rfl,
      ⟨condition, _, hc, hallowed⟩, _, vs, rfl, ⟨closing, rfl, hp⟩, tree, _, hb, hallowed'⟩ := h
    exact ⟨_, _, .whileLoop hk ho hc hp hb, hallowed.append hallowed'⟩
  | block =>
    obtain ⟨_, _, rfl, ⟨opening, rfl, ho⟩, inner, _, rfl, ⟨bound, hlist⟩, closing, rfl, hc⟩ := h
    obtain ⟨trees, _, htrees, hallowed⟩ := forms_sequence hlist
    exact ⟨trees, opening, inner, closing, rfl, ho, hc, _, .body htrees, hallowed⟩
  | expression => exact h
  | assignment => exact isPhraseWithin_assignment h
  | logicOr => exact isPhraseWithin_binary .disjunction h
  | logicAnd => exact isPhraseWithin_binary .conjunction h
  | equality => exact isPhraseWithin_binary .equality h
  | comparison => exact isPhraseWithin_binary .comparison h
  | term => exact isPhraseWithin_binary .sum h
  | factor => exact isPhraseWithin_binary .product h
  | unary => exact isPhraseWithin_unary h
  | call =>
    obtain ⟨us, vs, rfl, ⟨callee, _, hcallee, hallowed⟩, bound, hmore⟩ := h
    obtain ⟨result, _, hmore, hallowed'⟩ := spells_calls callee hmore
    exact ⟨result, _, .call hcallee hmore, hallowed.append hallowed'⟩
  | arguments =>
    obtain ⟨us, vs, rfl, hfirst, hmore⟩ := h
    exact hasTreeWithin_arguments (.inr (Nat.le_refl _)) hfirst hmore
  | primary => exact isPhraseWithin_primary h

/-- So does every production without bounds, where the errors past the limit are allowed. -/
theorem hasTreeWithin_of_unboundedProduction (hargument : allowed .tooManyArguments)
    (hparameter : allowed .tooManyParameters) (name : Symbol)
    (h : (unboundedProduction name).Means (Symbol.HasTreeWithin allowed) start ts) :
    name.HasTreeWithin allowed start ts := by
  cases name with
  | parameters =>
    obtain ⟨_, us, rfl, ⟨name, rfl, hn⟩, bound, hmore⟩ := h
    exact hasTreeWithin_parameters (.inl hparameter) hn hmore
  | arguments =>
    obtain ⟨us, vs, rfl, hfirst, bound, hmore⟩ := h
    exact hasTreeWithin_arguments (.inl hargument) hfirst hmore
  | _ => exact hasTreeWithin_of_production _ h

/-- Tokens whose kinds are a sentence of a symbol have a tree of its kind, without an error. -/
theorem Matches.hasTreeWithin {name : Symbol} (h : Matches (.symbol name) (ts.map Token.kind))
    (start : Nat) : name.HasTreeWithin allowed start ts :=
  h.means _ (fun name _ _ => hasTreeWithin_of_production name) start ts rfl

/-- Tokens whose kinds are a sentence of the grammar without bounds have a tree, and the only errors
are those of lists past the limit. -/
theorem Derives.hasTreeWithin (hargument : allowed .tooManyArguments)
    (hparameter : allowed .tooManyParameters) {name : Symbol}
    (h : Derives unboundedProduction (.symbol name) (ts.map Token.kind)) (start : Nat) :
    name.HasTreeWithin allowed start ts :=
  h.means _ (fun name _ _ => hasTreeWithin_of_unboundedProduction hargument hparameter name) start
    ts rfl

end Trees

end ScriptLang.Grammar
