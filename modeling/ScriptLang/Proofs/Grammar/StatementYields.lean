import ScriptLang.Proofs.Grammar.ExpressionYields
import ScriptLang.Proofs.Grammar.StatementReads

namespace ScriptLang.Grammar

open Rule

variable {n : Nat}

section Names

def IsParameter (read : List Token) : Outcome (List Token) := fun names start ts _ errors =>
  ∃ name, name.kind = .identifier ∧ names = read ++ [name] ∧ ts = [name] ∧
    errors = overflow .tooManyParameters read.length name start

theorem yields_parameter (read : List Token) : Yields n (parameter read) (IsParameter read) := by
  unfold parameter
  rw [item_eq]
  split
  · next hlimit =>
    refine yields_flag _ (yields_expectNamed _ _ fun name hk => yields_pure ?_)
    intro _ rest start _ token htoken
    have htoken : name = token := Option.some.inj htoken
    subst htoken
    exact ⟨name, hk, rfl, rfl, by simp [overflow, hlimit]⟩
  · next hlimit =>
    refine yields_expectNamed _ _ fun name hk => yields_pure ?_
    intro _ rest start _
    exact ⟨name, hk, rfl, rfl, by simp [overflow, hlimit]⟩

theorem yields_moreParameters (read : List Token) :
    Yields n (moreParameters read) fun names start ts _ errors =>
      SpellsMoreNames read names start ts errors := by
  induction n using Nat.strongRecOn generalizing read with
  | ind n ih =>
    rw [moreParameters_unfold]
    refine yields_accept? (fun comma m hk hm => ?_) ?_
    · refine (yields_parameter read).bind fun names => (ih m hm names).imp ?_
      intro result _ us rest errors' hmore _ ts errors hmiddle hname start hstart
      obtain ⟨name, hn, rfl, rfl, rfl⟩ := hname
      subst hmiddle hstart
      exact .next (List.mem_singleton.mp hk) hn hmore
    · exact yields_pure fun start _ _ => .last start read

theorem yields_parameters : Yields n parameters fun names start ts _ errors =>
    SpellsNames names start ts errors := by
  rw [parameters_eq]
  refine yields_isNext _ fun isClosed => ?_
  split
  · exact yields_pure fun start _ => .none start
  · refine (yields_parameter []).bind fun names => (yields_moreParameters names).imp ?_
    intro result _ us rest errors' hmore start ts errors hmiddle hname
    obtain ⟨name, hn, rfl, rfl, rfl⟩ := hname
    subst hmiddle
    exact .some hn hmore

end Names

/-- No error stopped a declaration, or there is no block that one could stand in. -/
def Clean (ts : List Token) (errors : List SyntaxError) : Prop :=
  raisedErrors errors = [] ∨ ∀ token ∈ ts, token.kind ≠ .leftBrace

namespace Clean

variable {ts us : List Token} {errors errors' : List SyntaxError}

theorem of_append (h : Clean (ts ++ us) (errors ++ errors')) :
    Clean ts errors ∧ Clean us errors' := by
  obtain h | h := h
  · rw [raisedErrors_append, List.append_eq_nil_iff] at h
    exact ⟨.inl h.1, .inl h.2⟩
  · exact ⟨.inr fun token hmem => h token (List.mem_append_left us hmem),
      .inr fun token hmem => h token (List.mem_append_right ts hmem)⟩

theorem tail {token : Token} (h : Clean (token :: ts) errors) : Clean ts errors := by
  obtain h | h := h
  · exact .inl h
  · exact .inr fun other hmem => h other (List.mem_cons_of_mem token hmem)

/-- In a block it is the errors that count. -/
theorem of_leftBrace {brace : Token} (h : Clean ts errors) (hmem : brace ∈ ts)
    (hk : brace.kind = .leftBrace) : raisedErrors errors = [] :=
  h.resolve_right fun hnone => hnone brace hmem hk

end Clean

def IsStatement : Outcome Stmt := fun tree start ts rest errors =>
  Clean ts errors → Forms .none (.statement tree) start ts errors [] ∧ (tree.dangling → NoElse rest)

def IsDeclaration : Outcome Stmt := fun tree start ts rest errors =>
  Clean ts errors →
    Forms .none (.declaration tree) start ts errors [] ∧ (tree.dangling → NoElse rest)

def IsBlock : Outcome (List Stmt) := fun trees start ts _ errors =>
  raisedErrors errors = [] → ∃ inner closing, ts = inner ++ [closing] ∧
    closing.kind = .rightBrace ∧ Forms .none (.body trees) start inner errors []

def Past {α : Type} (R : Outcome α) (keyword : Token) : Outcome α :=
  fun value middle us rest errors => ∀ start, middle = start + 1 →
    R value start (keyword :: us) rest errors

section Statements

variable {keyword : Token}

theorem yields_terminated (context : String) {f : Expr → Rule Stmt} {tree : Expr → Stmt}
    (hf : ∀ value, f value = do
      let _ ← expect .semicolon context
      return tree value) :
    Yields n (expression >>= f) fun result start ts _ errors =>
      ∃ inner semicolon value, ts = inner ++ [semicolon] ∧ semicolon.kind = .semicolon ∧
        result = tree value ∧ Spells (.expr .assignment value) start inner errors := by
  refine (yields_expression n).bind fun value => ?_
  rw [hf]
  refine yields_expectNamed _ _ fun semicolon hs => yields_pure ?_
  intro _ rest _ _ start inner errors _ hv
  rw [List.append_nil]
  exact ⟨inner, semicolon, value, rfl, hs, rfl, hv⟩

theorem yields_expressionStatement : Yields n expressionStatement IsStatement := by
  refine (yields_terminated _ fun _ => rfl).imp ?_
  intro result start ts rest errors h _
  obtain ⟨inner, semicolon, value, rfl, hs, rfl, hv⟩ := h
  exact ⟨.expression hv hs, by rintro ⟨⟩⟩

theorem yields_printStatement (hk : keyword.kind = .printWord) :
    Yields n (printStatement keyword) (Past IsStatement keyword) := by
  refine (yields_terminated _ fun _ => rfl).imp ?_
  intro result middle ts rest errors h start hstart _
  obtain ⟨inner, semicolon, value, rfl, hs, rfl, hv⟩ := h
  subst hstart
  exact ⟨.print hk hv hs, by rintro ⟨⟩⟩

theorem yields_letDeclaration (hk : keyword.kind = .letWord) :
    Yields n (letDeclaration keyword) (Past IsDeclaration keyword) := by
  refine yields_expectNamed _ _ fun name hn => yields_expectNamed _ _ fun equals he => ?_
  refine (yields_terminated _ fun _ => rfl).imp ?_
  intro result _ ts rest errors h _ hequals _ hname start hstart _
  obtain ⟨inner, semicolon, value, rfl, hs, rfl, hv⟩ := h
  subst hequals hname hstart
  exact ⟨.letBinding hk hn he hv hs, by rintro ⟨⟩⟩

/-- A condition in parentheses, past the keyword before it. -/
theorem yields_condition {f : Expr → Rule Stmt} {R : Outcome Stmt} (context context' : String)
    (hf : ∀ condition, Yields n (f condition) fun result middle us rest errors' =>
      ∀ opening ts closing errors start, opening.kind = .leftParen →
        Spells (.expr .assignment condition) (start + 2) ts errors → closing.kind = .rightParen →
        middle = start + 2 + ts.length + 1 →
          R result start (keyword :: opening :: (ts ++ closing :: us)) rest (errors ++ errors')) :
    Yields n (do
      let _ ← expect .leftParen context
      let condition ← expression
      let _ ← expect .rightParen context'
      f condition) (Past R keyword) := by
  refine yields_expectNamed _ _ fun opening ho => ?_
  refine (yields_expression n).bind fun condition => ?_
  refine yields_expectNamed _ _ fun closing hp => (hf condition).imp ?_
  intro result _ us rest errors' h _ hclosing _ ts errors hmiddle hc _ hopening start hstart
  subst hclosing hmiddle hopening hstart
  exact h opening ts closing errors start ho hc hp rfl

variable {s : Rule Stmt}

theorem yields_whileStatement (hs : Yields n s IsStatement) (hk : keyword.kind = .whileWord) :
    Yields n (whileStatement s keyword) (Past IsStatement keyword) := by
  refine yields_condition _ _ fun condition => ?_
  refine hs.map (Stmt.whileLoop keyword.line condition) ?_
  intro tree _ us rest errors' htree opening ts closing errors start ho hc hp hmiddle hclean
  subst hmiddle
  obtain ⟨-, hclean⟩ := hclean.tail.tail.of_append
  obtain ⟨hforms, hnext⟩ := htree hclean.tail
  exact ⟨.whileLoop hk ho hc hp hforms, hnext⟩

theorem Misses.noElse {rest : List Token} (h : Misses [.elseWord] rest) : NoElse rest := by
  intro token hmem heq
  have hkind := h token hmem
  rw [heq] at hkind
  obtain heof | hmiss := hkind
  · cases heof
  · exact hmiss (List.mem_singleton_self _)

theorem yields_ifStatement (hs : Yields n s IsStatement) (hk : keyword.kind = .ifWord) :
    Yields n (ifStatement s keyword) (Past IsStatement keyword) := by
  refine yields_condition _ _ fun condition => ?_
  refine hs.bind fun thenBranch => yields_accept? (fun word m hw hm => ?_) ?_
  · refine (hs.mono (Nat.le_of_lt hm)).map (Stmt.ifElse keyword.line condition thenBranch) ?_
    intro elseBranch _ vs rest errors'' helse _ hword _ us errors' hmiddle hthen opening ts closing
      errors start ho hc hp hstart hclean
    subst hword hmiddle hstart
    obtain ⟨-, hclean⟩ := hclean.tail.tail.of_append
    obtain ⟨hcleanThen, hcleanElse⟩ := hclean.tail.of_append
    obtain ⟨hformsThen, hnextThen⟩ := hthen hcleanThen
    obtain ⟨hformsElse, hnextElse⟩ := helse hcleanElse.tail
    have hw := List.mem_singleton.mp hw
    -- a branch that dangles would have taken the else itself
    have hdangling : thenBranch.dangling = false := by
      by_contra hdangling
      exact hnextThen (by simpa using hdangling) word rfl hw
    exact ⟨.ifElse hk ho hc hp hformsThen hdangling hw hformsElse, hnextElse⟩
  · refine yields_pure ?_
    intro _ rest hmiss _ us errors' hmiddle hthen opening ts closing errors start ho hc hp hstart
      hclean
    subst hmiddle hstart
    rw [List.append_nil] at hclean ⊢
    rw [List.append_nil] at hclean ⊢
    obtain ⟨-, hclean⟩ := hclean.tail.tail.of_append
    obtain ⟨hforms, -⟩ := hthen hclean.tail
    exact ⟨.ifThen hk ho hc hp hforms, fun _ => Misses.noElse hmiss⟩

theorem yields_statementBlock (hb : Yields n (block declaration) IsBlock)
    (hk : keyword.kind = .leftBrace) :
    Yields n (do return Stmt.block keyword.line (← block declaration))
      (Past IsStatement keyword) := by
  refine hb.map (Stmt.block keyword.line) ?_
  intro trees _ ts rest errors htrees start hstart hclean
  subst hstart
  have hraised := hclean.of_leftBrace (List.mem_cons_self ..) hk
  obtain ⟨inner, closing, rfl, hc, hforms⟩ := htrees hraised
  exact ⟨.block hk hforms hc, by rintro ⟨⟩⟩

theorem yields_statement (hb : ∀ m < n, Yields m (block declaration) IsBlock) :
    Yields n (statement (block declaration)) IsStatement := by
  induction n using Nat.strongRecOn with
  | ind n ih =>
    rw [statement_unfold]
    refine yields_accept? (fun token m hk hm => ?_) ?_
    · have hs := ih m hm fun k hk => hb k (Nat.lt_trans hk hm)
      dsimp only
      split
      · next h => exact yields_printStatement h
      · next h => exact yields_ifStatement hs h
      · next h => exact yields_whileStatement hs h
      · next hprint hif hwhile =>
        refine yields_statementBlock (hb m hm) ?_
        simpa [Ne.intro hprint, Ne.intro hif, Ne.intro hwhile] using hk
    · exact yields_expressionStatement.imp fun _ _ _ _ _ h _ => h

theorem yields_functionDeclaration (hb : Yields n (block declaration) IsBlock)
    (hk : keyword.kind = .fnWord) :
    Yields n (functionDeclaration (block declaration) keyword) (Past IsDeclaration keyword) := by
  refine yields_expectNamed _ _ fun name hn => yields_expectNamed _ _ fun opening ho => ?_
  refine yields_parameters.bind fun params => yields_expectNamed _ _ fun closing hc => ?_
  refine yields_expectNamed _ _ fun brace hbrace => ?_
  refine hb.map (Stmt.function keyword.line name params brace.line) ?_
  intro trees _ us rest errors' htrees _ h₁ _ h₂ _ ts errors h₃ hp _ h₄ _ h₅ start h₆ hclean
  subst h₁ h₂ h₃ h₄ h₅ h₆
  obtain ⟨-, hclean⟩ := hclean.tail.tail.tail.of_append
  have hraised := hclean.tail.of_leftBrace (List.mem_cons_self ..) hbrace
  obtain ⟨inner, ending, rfl, he, hforms⟩ := htrees hraised
  exact ⟨.function hk hn ho hp hc hbrace hforms he, by rintro ⟨⟩⟩

theorem yields_attempt (hb : ∀ m < n, Yields m (block declaration) IsBlock) :
    Yields n attempt IsDeclaration := by
  refine yields_accept? (fun token m hk hm => ?_) ?_
  · dsimp only
    split
    · next h => exact yields_functionDeclaration (hb m hm) h
    · next h => exact yields_letDeclaration (by simpa [Ne.intro h] using hk)
  · refine (yields_statement hb).imp ?_
    intro tree start ts rest errors htree _ hclean
    obtain ⟨hforms, hnext⟩ := htree hclean
    exact ⟨.statement hforms, hnext⟩

end Statements

section Lists

/-- A declaration is read, and none is given up, if no error stopped one. -/
def IsDeclared : Outcome (Option Stmt) := fun statement? start ts rest errors =>
  raisedErrors errors = [] → ∃ tree, statement? = some tree ∧
    Forms .none (.declaration tree) start ts errors [] ∧ (tree.dangling → NoElse rest)

theorem yields_declaration (ha : Yields n attempt IsDeclaration) :
    Yields n declaration IsDeclared := by
  intro c hc statement? c' errors hdone
  obtain ⟨tree, rfl, hattempt⟩ | ⟨error, middle, before, -, hattempt, hmem⟩ :=
    declaration_eq_done hdone
  · obtain ⟨used, hm, htree⟩ := ha c hc tree c' errors hattempt
    exact ⟨used, hm, fun hraised => ⟨tree, rfl, htree (.inl hraised)⟩⟩
  · obtain ⟨-, hkeeps, -⟩ := agreeOnDeclarations n c hc
    obtain ⟨-, hattempted⟩ := agree_attempt n c hc
    rw [hdone] at hkeeps
    rw [hattempt] at hattempted
    obtain ⟨used, hm, -⟩ := hkeeps.moves
    refine ⟨used, hm, fun hraised => ?_⟩
    -- the error of the attempt is recorded, so this is no reading without such errors
    have hmem' : error ∈ raisedErrors errors :=
      List.mem_filter.mpr ⟨hmem, (hattempted.stops error rfl).raised⟩
    rw [hraised] at hmem'
    cases hmem'

/-- A step of a list of declarations: the list ends here, or one more declaration is read. -/
def ListStep (holds : Cursor → Prop) (step : List Stmt → Rule (Option (List Stmt))) : Prop :=
  ∀ read c, holds c → ∀ found c' errors, step read c = ⟨.done found, c', errors⟩ →
    (found = none ∧ c' = c ∧ errors = []) ∨
      ∃ statement?, declaration c = ⟨.done statement?, c', errors⟩ ∧
        found = some (read ++ statement?.toList)

theorem listStep_block : ListStep (fun _ => True) (blockStep declaration) := by
  intro read c _ found c' errors h
  obtain ⟨position, rest, openBlocks⟩ := c
  cases rest with
  | nil => rw [blockStep_of_nil declaration read _ rfl] at h; cases h
  | cons token rest =>
    by_cases hend : token.kind = .rightBrace ∨ token.kind = .eof
    · rw [blockStep_of_end declaration read position openBlocks rest hend] at h
      cases h
      exact .inl ⟨rfl, rfl, rfl⟩
    · rw [not_or] at hend
      rw [blockStep_of_not_end declaration read position openBlocks rest hend.1 hend.2,
        map_eq_bind] at h
      obtain ⟨statement?, _, before, later, hdone, hpure, rfl⟩ := bind_eq_done_iff.mp h
      cases hpure
      rw [List.append_nil]
      exact .inr ⟨statement?, hdone, rfl⟩

theorem listStep_program : ListStep (fun c => c.openBlocks = 0) programStep := by
  intro read c _ found c' errors h
  obtain ⟨position, rest, openBlocks⟩ := c
  cases rest with
  | nil => cases h
  | cons token rest =>
    by_cases hend : token.kind = .eof
    · rw [programStep_of_eof read position openBlocks rest hend] at h
      cases h
      exact .inl ⟨rfl, rfl, rfl⟩
    · rw [programStep_of_not_eof read position openBlocks rest hend, map_eq_bind] at h
      obtain ⟨statement?, _, before, later, hdone, hpure, rfl⟩ := bind_eq_done_iff.mp h
      cases hpure
      rw [List.append_nil]
      exact .inr ⟨statement?, hdone, rfl⟩

/-- What a repeated step reads is a list of declarations, and it ends where the step ends. -/
theorem ListStep.yields {holds : Cursor → Prop} {step : List Stmt → Rule (Option (List Stmt))}
    (hs : ListStep holds step) (hadvances : Advances holds step)
    (hd : Yields n declaration IsDeclared) (c : Cursor) (hc : holds c) (hn : c.rest.length ≤ n)
    (read result : List Stmt) (c' : Cursor) (errors : List SyntaxError)
    (h : iterate step read c = ⟨.done result, c', errors⟩) :
    step result c' = ⟨.done none, c', []⟩ ∧ ∃ used, c.Moves used c' ∧
      (raisedErrors errors = [] → ∃ trees, result = read ++ trees ∧
        Forms .none (.sequence trees) c.position used errors []) := by
  induction hlength : c.rest.length using Nat.strongRecOn generalizing c read errors with
  | ind length ih =>
    subst hlength
    rw [iterate_eq hadvances read c hc] at h
    obtain ⟨found, middle, before, later, hstep, hnext, rfl⟩ := bind_eq_done_iff.mp h
    obtain ⟨rfl, rfl, rfl⟩ | ⟨statement?, hdone, rfl⟩ := hs read c hc found middle before hstep
    · cases hnext
      refine ⟨hstep, [], .refl c', ?_⟩
      intro _
      exact ⟨[], (List.append_nil _).symm, .nil _⟩
    · obtain ⟨hlt, hc'⟩ := hadvances.shrinks read c hc _ middle before hstep
      obtain ⟨hend, us, hus, hmore⟩ := ih _ hlt middle hc' (by omega) _ later hnext rfl
      obtain ⟨ts, hts, htree⟩ := hd c hn statement? middle before hdone
      refine ⟨hend, ts ++ us, hts.trans hus, ?_⟩
      intro hraised
      rw [raisedErrors_append, List.append_eq_nil_iff] at hraised
      obtain ⟨tree, rfl, hforms, -⟩ := htree hraised.1
      obtain ⟨trees, hresult, hlater⟩ := hmore hraised.2
      rw [hts.position_eq] at hlater
      exact ⟨tree :: trees, by simpa using hresult, .cons hforms hlater⟩

theorem yields_inBlock {α : Type} {p : Rule α} {P : Outcome α} (hp : Yields n p P) :
    Yields n (inBlock p) P := by
  intro c hc value c' errors hdone
  rcases hr : p { c with openBlocks := c.openBlocks + 1 } with ⟨ending, middle, recorded⟩
  unfold inBlock at hdone
  rw [hr] at hdone
  cases hdone
  obtain ⟨used, hm, hP⟩ := hp { c with openBlocks := c.openBlocks + 1 } hc value middle recorded hr
  exact ⟨used, ⟨hm.rest_eq, hm.position_eq, rfl⟩, hP⟩

theorem yields_block (ha : Yields n attempt IsDeclaration) :
    Yields n (block declaration) IsBlock := by
  have hlist : Yields n (iterate (blockStep declaration) []) fun trees start ts _ errors =>
      raisedErrors errors = [] → Forms .none (.sequence trees) start ts errors [] := by
    intro c hc result c' errors h
    obtain ⟨-, used, hm, hforms⟩ := listStep_block.yields blockStep_advances
      (yields_declaration ha) c trivial hc [] result c' errors h
    refine ⟨used, hm, ?_⟩
    intro hraised
    obtain ⟨trees, rfl, hforms⟩ := hforms hraised
    exact hforms
  rw [block_eq]
  refine (yields_inBlock hlist).bind fun trees => ?_
  refine yields_expectNamed _ _ fun closing hk => yields_pure ?_
  intro _ rest _ _ start inner errors _ hforms hraised
  rw [List.append_nil] at hraised ⊢
  exact ⟨inner, closing, rfl, hk, .body (hforms hraised)⟩

/-- Whatever an attempt comes to is formed by the tokens it used up. -/
theorem yields_attempt_all (n : Nat) : Yields n attempt IsDeclaration := by
  induction n using Nat.strongRecOn with
  | ind n ih => exact yields_attempt fun m hm => yields_block (ih m hm)

end Lists

end ScriptLang.Grammar
