import ScriptLang.Proofs.Grammar.Sentences

namespace ScriptLang

open Rule Grammar

/-- The faults that stop a rule are the missing token and the missing expression. -/
theorem SyntaxFault.raised_eq_false_iff (fault : SyntaxFault) :
    fault.raised = false ↔ fault.code ≠ .expectedToken ∧ fault.code ≠ .expectedExpression := by
  cases fault <;> simp [raised, code]

theorem raisedErrors_eq_nil_iff {errors : List SyntaxError} :
    raisedErrors errors = [] ↔ ∀ error ∈ errors,
      error.fault.code ≠ .expectedToken ∧ error.fault.code ≠ .expectedExpression := by
  unfold raisedErrors
  simp only [List.filter_eq_nil_iff, Bool.not_eq_true, SyntaxFault.raised_eq_false_iff]

/-- What is recorded with an expression is an assignment to no name, or one argument too many. -/
theorem Grammar.Spells.fault_eq {phrase : Phrase} {start : Nat} {ts : List Token}
    {errors : List SyntaxError} (h : Spells phrase start ts errors) :
    ∀ error ∈ errors,
      error.fault = .invalidAssignmentTarget ∨ error.fault = .tooManyArguments := by
  induction h with
  | literal | name | noCalls | noArguments | lastArgument | lastOperand => simp
  | grouping _ _ _ ih | unaryOfCall _ ih | unary _ _ ih | operation _ ih => exact ih
  | oneCall _ _ _ _ iha ih | call _ _ iha ih | someArguments _ _ iha ih
  | nextOperand _ _ _ iha ih | binary _ _ iha ih | assignment _ _ _ iha ih =>
    exact List.forall_mem_append.mpr ⟨iha, ih⟩
  | @nextArgument _ _ head _ _ read _ _ _ _ _ _ _ iht ih =>
    refine List.forall_mem_append.mpr ⟨List.forall_mem_append.mpr ⟨?_, iht⟩, ih⟩
    unfold overflow
    split <;> simp
  | badAssignment _ _ _ _ iht ih =>
    refine List.forall_mem_append.mpr ⟨List.forall_mem_append.mpr ⟨iht, ih⟩, ?_⟩
    simp

section Readings

variable {body later : List Token} {mark : Token} {tree : Expr} {errors : List SyntaxError}

theorem agree_wholeExpression (n : Nat) :
    Agree .expression n wholeExpression wholeExpression := by
  refine agree_bind (agree_expression n) fun value => agree_bind agree_atEnd fun isEnd => ?_
  split
  · exact agree_pure value
  · exact agree_stop _ rfl

/-- Reading one expression does not run out before an end mark. -/
theorem parseExpression_ends {tokens : List Token} (h : Ends tokens) :
    (parseExpression tokens).ending ≠ .ranOut :=
  (agree_wholeExpression _ (Cursor.start tokens) (Nat.le_refl _)).2.ends h

/-- What spells an expression before an end mark is read as that expression. -/
theorem parseExpression_of_spells (hmark : mark.kind = .eof) (later : List Token)
    (h : Spells (.expr .assignment tree) 0 body errors) :
    parseExpression (body ++ mark :: later) =
      ⟨.done tree, ⟨body.length, mark :: later, 0⟩, errors⟩ := by
  have hread : expression ⟨0, body ++ mark :: later, 0⟩ = _ :=
    h.reads (follows_token later hmark (by decide))
  unfold parseExpression wholeExpression
  rw [Cursor.start, bind_of_done hread, bind_of_done (atEnd_cons _ 0 later),
    if_pos (by simp [Token.isEof, hmark])]
  simp

/-- One expression is read by the rule for expressions, which stops before an end mark. -/
theorem wholeExpression_eq_done {c c' : Cursor}
    (h : wholeExpression c = ⟨.done tree, c', errors⟩) :
    expression c = ⟨.done tree, c', errors⟩ ∧
      ∃ token rest, c'.rest = token :: rest ∧ token.kind = .eof := by
  obtain ⟨value, ⟨position, rest, openBlocks⟩, before, after, hvalue, hend, rfl⟩ :=
    bind_eq_done_iff.mp h
  cases rest with
  | nil => cases hend
  | cons token rest =>
    rw [bind_of_done (atEnd_cons position openBlocks rest), Reading.after_nil] at hend
    split at hend
    · next heof =>
      rw [pure_apply] at hend
      cases hend
      rw [List.append_nil]
      exact ⟨hvalue, token, rest, rfl, by simpa [Token.isEof] using heof⟩
    · cases hend

/-- Whatever one expression is read as is spelled by the tokens before the first end mark. -/
theorem spells_of_parseExpression (hmark : mark.kind = .eof)
    (hnone : ∀ token ∈ body, token.kind ≠ .eof)
    (h : (parseExpression (body ++ mark :: later)).ending = .done tree) :
    Spells (.expr .assignment tree) 0 body (parseExpression (body ++ mark :: later)).recorded := by
  rcases hr : parseExpression (body ++ mark :: later) with ⟨ending, c, errors⟩
  rw [hr] at h
  obtain rfl : ending = .done tree := h
  obtain ⟨hread, token, rest, hrest, htoken⟩ := wholeExpression_eq_done hr
  obtain ⟨used, hm, hspells⟩ := yields_expression _ _ (Nat.le_refl _) tree c errors hread
  obtain ⟨-, hkeeps⟩ := agree_expression _ (Cursor.start (body ++ mark :: later)) (Nat.le_refl _)
  rw [hread] at hkeeps
  obtain ⟨used', hm', huses⟩ := hkeeps.moves
  obtain rfl : used' = used := List.append_cancel_right (hm'.rest_eq.symm.trans hm.rest_eq)
  have htokens : body ++ mark :: later = used' ++ token :: rest := hrest ▸ hm.rest_eq
  have hbody : used' = body := by
    rw [← takeWhile_before_mark htoken (Reading.Keeps.not_mem_eof huses) rest, ← htokens,
      takeWhile_before_mark hmark hnone later]
  rw [← hbody]
  exact hspells

end Readings

/-- Before an end mark, reading one expression comes to an expression or stops at an error. It comes
to those trees that the tokens up to the first end mark spell, with the errors that go with them,
which are assignments to no name and arguments past the limit. It does so without an error exactly
if the kinds of those tokens are a sentence of the grammar. -/
theorem parseExpression_clean_iff_sentence {tokens : List Token} (h : Ends tokens) :
    ((∃ tree, (parseExpression tokens).ending = .done tree) ∨
        ∃ error, (parseExpression tokens).ending = .stopped error) ∧
      (∀ tree errors, (parseExpression tokens).ending = .done tree ∧
          (parseExpression tokens).recorded = errors ↔
        Spells (.expr .assignment tree) 0 (tokens.takeWhile fun token => token.kind ≠ .eof)
          errors) ∧
      (∀ tree, (parseExpression tokens).ending = .done tree →
        ∀ error ∈ (parseExpression tokens).recorded,
          error.fault = .invalidAssignmentTarget ∨ error.fault = .tooManyArguments) ∧
      ((∃ tree, (parseExpression tokens).ending = .done tree) ∧
          (parseExpression tokens).recorded = [] ↔
        Matches (.symbol .expression)
          ((tokens.takeWhile fun token => token.kind ≠ .eof).map Token.kind)) := by
  obtain ⟨body, mark, later, -, -, htokens, hmark, hnone, -⟩ := parse_done h
  have hbody : (tokens.takeWhile fun token => token.kind ≠ .eof) = body := by
    rw [htokens, takeWhile_before_mark hmark hnone]
  rw [hbody]
  have hspells (tree : Expr) (errors : List SyntaxError) :
      (parseExpression tokens).ending = .done tree ∧ (parseExpression tokens).recorded = errors ↔
        Spells (.expr .assignment tree) 0 body errors := by
    rw [htokens]
    constructor
    · rintro ⟨hdone, rfl⟩
      exact spells_of_parseExpression hmark hnone hdone
    · intro hspells
      rw [parseExpression_of_spells hmark later hspells]
      exact ⟨rfl, rfl⟩
  refine ⟨?_, hspells, fun tree hdone => ((hspells tree _).mp ⟨hdone, rfl⟩).fault_eq, ?_⟩
  · have hends := parseExpression_ends h
    cases hr : (parseExpression tokens).ending with
    | done tree => exact .inl ⟨tree, rfl⟩
    | stopped error => exact .inr ⟨error, rfl⟩
    | ranOut => exact absurd hr hends
  · constructor
    · rintro ⟨⟨tree, hdone⟩, hclean⟩
      exact .symbol (((hspells tree []).mp ⟨hdone, hclean⟩).derives rfl)
    · intro hsentence
      -- the tree of a sentence is spelled without an error, and so it is what is read
      obtain ⟨tree, htree⟩ := hsentence.hasTree 0
      obtain ⟨hdone, hclean⟩ := (hspells tree []).mpr htree
      exact ⟨⟨tree, hdone⟩, hclean⟩

def callAssigned : List Token :=
  [bareToken .identifier "a", bareToken .equal "=", bareToken .identifier "f",
    bareToken .leftParen "(", bareToken .minus "-", bareToken .identifier "b",
    bareToken .comma ",", bareToken .nullWord "null", bareToken .rightParen ")",
    bareToken .orWord "or", bareToken .nullWord "null", Token.endMark 1]

theorem sentence_of_callAssigned :
    Ends callAssigned ∧ Matches (.symbol .expression)
      [.identifier, .equal, .identifier, .leftParen, .minus, .identifier, .comma, .nullWord,
        .rightParen, .orWord, .nullWord] := by
  have hends : Ends callAssigned := ⟨Token.endMark 1, by simp [callAssigned], rfl⟩
  obtain ⟨-, -, -, hsentence⟩ := parseExpression_clean_iff_sentence hends
  exact ⟨hends, hsentence.mp ⟨⟨_, rfl⟩, rfl⟩⟩

def nullAssigned : List Token :=
  [bareToken .nullWord "null", bareToken .equal "=", ⟨.trueWord, "true", .bool true, 1⟩]

/-- An assignment to a literal is no expression of the grammar, and yet it is returned as one, with
the error recorded. -/
theorem nullAssigned_is_returned :
    (∃ tree, (parseExpression (nullAssigned ++ [Token.endMark 1])).ending = .done tree) ∧
      (parseExpression (nullAssigned ++ [Token.endMark 1])).recorded =
        [⟨.invalidAssignmentTarget, bareToken .equal "=", 1⟩] ∧
      ¬ Matches (.symbol .expression) (nullAssigned.map Token.kind) := by
  refine ⟨⟨_, rfl⟩, rfl, fun hsentence => ?_⟩
  obtain ⟨tree, htree⟩ := hsentence.hasTree 0
  have hreading := parseExpression_of_spells (rfl : (Token.endMark 1).kind = .eof) [] htree
  have hrecorded : [] = [SyntaxError.mk .invalidAssignmentTarget (bareToken .equal "=") 1] :=
    (congrArg Reading.recorded hreading).symm
  cases hrecorded

section Statements

variable {start : Nat} {ts : List Token} {errors : List SyntaxError} {skipped : List Span}

/-- An expression statement alone is an expression with a semicolon behind it. -/
theorem Grammar.Forms.spells_of_expression {line : Int} {tree : Expr}
    (h : Forms .none (.sequence [.expression line tree]) start ts errors skipped) :
    ∃ inner semicolon, ts = inner ++ [semicolon] ∧ line = tree.line ∧
      Spells (.expr .assignment tree) start inner errors := by
  cases h with
  | cons h hs =>
    cases hs with
    | nil =>
      cases h with
      | statement h =>
        cases h with
        | @expression _ inner semicolon _ _ hv =>
          rw [List.append_nil, List.append_nil]
          exact ⟨inner, semicolon, rfl, rfl, hv⟩
    | skip hp => exact hp.elim
  | skip hp => exact hp.elim

theorem Grammar.Spells.forms_expression {tree : Expr} {semicolon : Token}
    (h : Spells (.expr .assignment tree) start ts errors) (hs : semicolon.kind = .semicolon) :
    Forms .none (.sequence [.expression tree.line tree]) start (ts ++ [semicolon]) errors [] := by
  have hforms : Forms .none (.sequence [.expression tree.line tree]) start _ _ _ :=
    .cons (.statement (.expression h hs)) (.nil _)
  rwa [List.append_nil, List.append_nil] at hforms

variable {body : List Token} {mark semicolon : Token} {tree : Expr}

/-- What spells an expression is parsed as a statement if a semicolon follows. -/
theorem parse_of_spells (hs : semicolon.kind = .semicolon) (hmark : mark.kind = .eof)
    (h : Spells (.expr .assignment tree) 0 body errors) :
    ∃ c, parse (body ++ [semicolon, mark]) = ⟨.done [.expression tree.line tree], c, errors⟩ := by
  obtain ⟨recorded, hrecorded, hparse⟩ :=
    parse_of_forms Pieces.skipped_none (h.forms_expression hs) hmark []
  rw [hrecorded.exact rfl, List.append_assoc, List.singleton_append] at hparse
  exact ⟨_, hparse⟩

/-- If one expression statement is all that is parsed, its expression is spelled by the tokens
before the semicolon. -/
theorem spells_of_parse (hbody : ∀ token ∈ body, token.kind ≠ .eof)
    (hs : semicolon.kind = .semicolon) (hmark : mark.kind = .eof)
    (hdone : (parse (body ++ [semicolon, mark])).ending = .done [.expression tree.line tree])
    (hraised : raisedErrors (parse (body ++ [semicolon, mark])).recorded = []) :
    Spells (.expr .assignment tree) 0 body (parse (body ++ [semicolon, mark])).recorded := by
  have hnone : ∀ token ∈ body ++ [semicolon], token.kind ≠ .eof := by
    refine List.forall_mem_append.mpr ⟨hbody, ?_⟩
    simp [hs]
  obtain ⟨trees, errors, hparse⟩ := parse_before_mark hmark hnone []
  rw [List.append_assoc, List.singleton_append] at hparse
  rw [hparse] at hdone hraised ⊢
  obtain rfl : trees = [.expression tree.line tree] := by cases hdone; rfl
  have hforms := forms_of_parse hparse (by simp) hraised
  obtain ⟨inner, last, hinner, -, htree⟩ := hforms.spells_of_expression
  obtain ⟨rfl, -⟩ := List.append_inj' hinner rfl
  exact htree

end Statements

/-- Reading one expression and reading the statement that it is with a semicolon come to the same.
It is returned alone exactly if it is the one statement and no token or expression was missing, and
then the same errors are recorded. -/
theorem parseExpression_iff_statement {body : List Token} {mark mark' semicolon : Token}
    (hbody : ∀ token ∈ body, token.kind ≠ .eof) (hmark : mark.kind = .eof)
    (hmark' : mark'.kind = .eof) (hs : semicolon.kind = .semicolon) (tree : Expr) :
    ((parseExpression (body ++ [mark])).ending = .done tree ↔
        (parse (body ++ [semicolon, mark'])).ending = .done [.expression tree.line tree] ∧
          ∀ error ∈ (parse (body ++ [semicolon, mark'])).recorded,
            error.fault.code ≠ .expectedToken ∧ error.fault.code ≠ .expectedExpression) ∧
      ((parseExpression (body ++ [mark])).ending = .done tree →
        (parse (body ++ [semicolon, mark'])).recorded =
          (parseExpression (body ++ [mark])).recorded) := by
  have hspells (hdone : (parseExpression (body ++ [mark])).ending = .done tree) :
      Spells (.expr .assignment tree) 0 body (parseExpression (body ++ [mark])).recorded :=
    spells_of_parseExpression hmark hbody hdone
  refine ⟨⟨fun hdone => ?_, fun ⟨hdone, hcodes⟩ => ?_⟩, fun hdone => ?_⟩
  · obtain ⟨c, hparse⟩ := parse_of_spells hs hmark' (hspells hdone)
    rw [hparse]
    exact ⟨rfl, raisedErrors_eq_nil_iff.mp (hspells hdone).raisedErrors_eq_nil⟩
  · have htree := spells_of_parse hbody hs hmark' hdone (raisedErrors_eq_nil_iff.mpr hcodes)
    rw [parseExpression_of_spells hmark [] htree]
  · obtain ⟨c, hparse⟩ := parse_of_spells hs hmark' (hspells hdone)
    rw [hparse]

def callTarget : List Token :=
  [bareToken .identifier "f", bareToken .leftParen "(", bareToken .identifier "a",
    bareToken .rightParen ")", bareToken .equal "=", bareToken .nullWord "null"]

/-- The call is returned by both, and both record the error at the equals sign. -/
theorem callTarget_as_statement :
    (∀ token ∈ callTarget, token.kind ≠ .eof) ∧
      ∃ tree, (parseExpression (callTarget ++ [Token.endMark 1])).ending = .done tree ∧
        (parse (callTarget ++ [bareToken .semicolon ";", Token.endMark 2])).ending =
          .done [.expression tree.line tree] ∧
        (parse (callTarget ++ [bareToken .semicolon ";", Token.endMark 2])).recorded =
          [⟨.invalidAssignmentTarget, bareToken .equal "=", 4⟩] := by
  have hbody : ∀ token ∈ callTarget, token.kind ≠ .eof := by decide
  have hmark : (Token.endMark 1).kind = .eof := rfl
  have hmark' : (Token.endMark 2).kind = .eof := rfl
  have hs : (bareToken .semicolon ";").kind = .semicolon := rfl
  have hdone : (parseExpression (callTarget ++ [Token.endMark 1])).ending = .done _ := rfl
  obtain ⟨hiff, hrecorded⟩ := parseExpression_iff_statement hbody hmark hmark' hs _
  refine ⟨hbody, _, hdone, (hiff.mp hdone).1, ?_⟩
  rw [hrecorded hdone]
  rfl

end ScriptLang
