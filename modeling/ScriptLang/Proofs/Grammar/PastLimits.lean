import ScriptLang.Proofs.Grammar.Unlimited
import ScriptLang.Proofs.Grammar.Blame
import ScriptLang.Proofs.Grammar.Excess
import ScriptLang.Proofs.Grammar.Sentences

namespace ScriptLang

open Grammar

/-- The errors recorded for these trees are one for each item past the limit, shown by the first
token of that item. -/
structure RecordsExcess (tokens : List Token) (trees : List Stmt) (recorded : List SyntaxError) :
    Prop where
  places : (recorded.map SyntaxError.site).Perm
    ((Stmt.nodesOfAll 0 trees).flatMap fun entry => entry.2.excess entry.1)
  shown : ∀ error ∈ recorded, tokens[error.position]? = some error.token

namespace RecordsExcess

variable {tokens : List Token} {trees : List Stmt} {recorded : List SyntaxError}

theorem countP_eq (h : RecordsExcess tokens trees recorded) (fault : SyntaxFault) :
    (recorded.countP fun error => error.fault = fault) = ((Stmt.nodesOfAll 0 trees).map
      fun entry => (entry.2.excess entry.1).countP fun site => site.1 = fault).sum := by
  have hsites : (recorded.countP fun error => error.fault = fault) =
      (recorded.map SyntaxError.site).countP fun site => site.1 = fault := by
    rw [List.countP_map]
    rfl
  rw [hsites, h.places.countP_eq, List.countP_flatMap]
  rfl

/-- There are as many errors of arguments as the calls have arguments past the limit. -/
theorem countP_arguments (h : RecordsExcess tokens trees recorded) :
    (recorded.countP fun error => error.fault = .tooManyArguments) =
      ((Stmt.nodesOfAll 0 trees).map fun entry => entry.2.arguments.length - maxArguments).sum := by
  rw [h.countP_eq]
  simp only [Node.countP_arguments]

/-- There are as many errors of parameters as the functions have parameters past the limit. -/
theorem countP_params (h : RecordsExcess tokens trees recorded) :
    (recorded.countP fun error => error.fault = .tooManyParameters) =
      ((Stmt.nodesOfAll 0 trees).map fun entry => entry.2.params.length - maxArguments).sum := by
  rw [h.countP_eq]
  simp only [Node.countP_params]

end RecordsExcess

/-- Where the kinds of the tokens before the first end mark are a sentence of the grammar without
bounds on lists, parsing comes to the very statements that it comes to without a limit. Their leaves
tell of all these tokens. The only errors are those of calls and functions past the limit: one for
each argument and each parameter past it, at the first token of that item. -/
theorem parse_past_limits {tokens : List Token} (hends : Ends tokens)
    (hsentence : Derives unboundedProduction (.symbol .program)
      ((tokens.takeWhile fun token => token.kind ≠ .eof).map Token.kind ++ [.eof])) :
    ∃ trees c recorded, parse tokens = ⟨.done trees, c, recorded⟩ ∧
      parseUnlimited tokens = ⟨.done trees, c, []⟩ ∧
      (Stmt.leavesOfAll trees).length = (tokens.takeWhile fun token => token.kind ≠ .eof).length ∧
      ((∀ token ∈ tokens, token.carriesLiteral) →
        Shown (Stmt.leavesOfAll trees) (tokens.takeWhile fun token => token.kind ≠ .eof)) ∧
      RecordsExcess tokens trees recorded ∧
      (recorded.countP fun error => error.fault = .tooManyArguments) =
        ((Stmt.nodesOfAll 0 trees).map fun entry => entry.2.arguments.length - maxArguments).sum ∧
      (recorded.countP fun error => error.fault = .tooManyParameters) =
        ((Stmt.nodesOfAll 0 trees).map fun entry => entry.2.params.length - maxArguments).sum := by
  obtain ⟨body, mark, later, -, -, htokens, hmark, hnone, -⟩ := parse_done hends
  have hbody : (tokens.takeWhile fun token => token.kind ≠ .eof) = body := by
    rw [htokens, takeWhile_before_mark hmark hnone]
  rw [hbody] at hsentence ⊢
  have hword : body.map Token.kind ++ [.eof] = (body ++ [mark]).map Token.kind := by
    rw [List.map_append, List.map_singleton, hmark]
  rw [hword] at hsentence
  have htree : Symbol.program.HasTreeWithin (fun fault => fault.pastLimit) 0 (body ++ [mark]) := by
    refine hsentence.hasTreeWithin ?_ ?_ 0 <;> rfl
  obtain ⟨trees, inner, mark', hinner, errors, hforms, hlimit⟩ := htree
  obtain ⟨rfl, -⟩ := List.append_inj' hinner rfl
  obtain ⟨recorded, haccounts, hparse⟩ := parse_of_forms Pieces.skipped_none hforms hmark later
  obtain rfl : recorded = errors := haccounts.exact rfl
  rw [← htokens] at hparse
  -- all errors are of items past the limit, so without a limit there are none
  have hlenient : withoutLimit recorded = [] :=
    List.filter_eq_nil_iff.mpr fun error hmem => by simp [hlimit error hmem]
  have hunlimited := parseUnlimited_eq_lenient tokens
  rw [hparse, Reading.lenient, hlenient] at hunlimited
  have hkept : ∀ error ∈ recorded, error.fault ≠ .invalidAssignmentTarget := by
    intro error hmem hfault
    have hpast : error.fault.pastLimit := hlimit error hmem
    rw [hfault] at hpast
    cases hpast
  have hexcess : RecordsExcess tokens trees recorded := by
    refine ⟨hforms.sites_perm hlimit, ?_⟩
    have hshown : ∀ error ∈ (parse tokens).recorded, tokens[error.position]? = some error.token :=
      shown_of_recorded
    rwa [hparse] at hshown
  refine ⟨trees, _, recorded, hparse, hunlimited, hforms.fills hlimit, fun hcarries => ?_, hexcess,
    hexcess.countP_arguments, hexcess.countP_params⟩
  refine hforms.shows_of_kept hkept fun token hmem => hcarries token ?_
  rw [htokens]
  exact List.mem_append_left _ hmem

section LongCall

/-- A call is an expression without operators. -/
theorem derives_expression_of_call {word : List TokenKind}
    (h : Derives unboundedProduction (.symbol .call) word) :
    Derives unboundedProduction (.symbol .expression) word := by
  have hlevel (operand : Symbol) (operator : Ebnf)
      (hoperand : Derives unboundedProduction (.symbol operand) word) :
      Derives unboundedProduction (.operands operand operator) word := by
    have hoperands := hoperand.seq (.many (.last 0 (.seq operator (.symbol operand))))
    rwa [List.append_nil] at hoperands
  have hunary : Derives unboundedProduction (.symbol .unary) word := .symbol (.right h)
  have hfactor : Derives unboundedProduction (.symbol .factor) word := .symbol (hlevel _ _ hunary)
  have hterm : Derives unboundedProduction (.symbol .term) word := .symbol (hlevel _ _ hfactor)
  have hcomparison : Derives unboundedProduction (.symbol .comparison) word :=
    .symbol (hlevel _ _ hterm)
  have hequality : Derives unboundedProduction (.symbol .equality) word :=
    .symbol (hlevel _ _ hcomparison)
  have hlogicAnd : Derives unboundedProduction (.symbol .logicAnd) word :=
    .symbol (hlevel _ _ hequality)
  exact .symbol (.symbol (.right (.symbol (hlevel _ _ hlogicAnd))))

theorem derives_name_primary : Derives unboundedProduction (.symbol .primary) [.identifier] :=
  .symbol (.right (.right (.right (.right (.right (.right (.token .identifier)))))))

theorem derives_name : Derives unboundedProduction (.symbol .expression) [.identifier] := by
  have hcall := derives_name_primary.seq (.many (.last 0
    (.sequence (.token .leftParen) [.opt (.symbol .arguments), .token .rightParen])))
  exact derives_expression_of_call (.symbol hcall)

/-- Names after commas, as many as there may be. -/
theorem derives_moreNames (count : Nat) : Derives unboundedProduction
    (.upTo count (.seq (.token .comma) (.symbol .expression)))
      (List.replicate count [TokenKind.comma, .identifier]).flatten := by
  induction count with
  | zero => exact .last 0 _
  | succ count ih =>
    rw [List.replicate_succ, List.flatten_cons]
    exact .next ((Derives.token .comma).seq derives_name) ih

/-- A call of a name with names as arguments, of which there are any number and one more. -/
theorem derives_callOfNames (count : Nat) : Derives unboundedProduction (.symbol .expression)
    (.identifier :: .leftParen :: .identifier ::
      ((List.replicate count [TokenKind.comma, .identifier]).flatten ++ [.rightParen])) := by
  have harguments : Derives unboundedProduction (.symbol .arguments) _ :=
    .symbol (derives_name.seq (.many (derives_moreNames count)))
  have hlist : Derives unboundedProduction
      (.sequence (.token .leftParen) [.opt (.symbol .arguments), .token .rightParen]) _ :=
    (Derives.token .leftParen).seq ((Derives.present harguments).seq (.token .rightParen))
  have hcalls := Derives.many (.next hlist (.last 0 _))
  have hcall := derives_expression_of_call (.symbol (derives_name_primary.seq hcalls))
  simpa using hcall

def callPastLimit : List Token :=
  bareToken .identifier "f" :: bareToken .leftParen "(" :: bareToken .identifier "x" ::
    ((List.replicate 255 [bareToken .comma ",", bareToken .identifier "x"]).flatten ++
      [bareToken .rightParen ")", bareToken .semicolon ";", Token.endMark 1])

theorem sentence_callPastLimit : Derives unboundedProduction (.symbol .program)
    ((callPastLimit.takeWhile fun token => token.kind ≠ .eof).map Token.kind ++ [.eof]) := by
  have hkinds : (callPastLimit.takeWhile fun token => token.kind ≠ .eof).map Token.kind =
      .identifier :: .leftParen :: .identifier ::
        ((List.replicate 255 [TokenKind.comma, .identifier]).flatten ++ [.rightParen]) ++
          [.semicolon] := by decide +kernel
  have hstatement : Derives unboundedProduction (.symbol .statement) _ :=
    .symbol (.left (.symbol ((derives_callOfNames 255).seq (.token .semicolon))))
  have hdeclaration : Derives unboundedProduction (.symbol .declaration) _ :=
    .symbol (.right (.right hstatement))
  have hlist := Derives.many (.next hdeclaration (.last 0 _))
  rw [List.append_nil] at hlist
  rw [hkinds]
  exact .symbol (hlist.seq (.token .eof))

/-- All 256 arguments are read, and the one error is at the first token of the last of them. -/
theorem parse_callPastLimit :
    Ends callPastLimit ∧ Derives unboundedProduction (.symbol .program)
        ((callPastLimit.takeWhile fun token => token.kind ≠ .eof).map Token.kind ++ [.eof]) ∧
      ∃ trees c recorded, parse callPastLimit = ⟨.done trees, c, recorded⟩ ∧
        parseUnlimited callPastLimit = ⟨.done trees, c, []⟩ ∧
        (Stmt.leavesOfAll trees).length = 515 ∧
        ((Stmt.nodesOfAll 0 trees).map
          fun entry => entry.2.arguments.length - maxArguments).sum = 1 ∧
        recorded = [⟨.tooManyArguments, bareToken .identifier "x", 512⟩] := by
  have hends : Ends callPastLimit := ⟨Token.endMark 1, by decide +kernel, rfl⟩
  obtain ⟨trees, c, recorded, hparse, hunlimited, hleaves, -, -, hcount, -⟩ :=
    parse_past_limits hends sentence_callPastLimit
  have hrecorded : (parse callPastLimit).recorded =
      [⟨.tooManyArguments, bareToken .identifier "x", 512⟩] := by decide +kernel
  have hlength : (callPastLimit.takeWhile fun token => token.kind ≠ .eof).length = 515 := by
    decide +kernel
  rw [hparse] at hrecorded
  obtain rfl : recorded = _ := hrecorded
  exact ⟨hends, sentence_callPastLimit, trees, c, _, hparse, hunlimited, hleaves.trans hlength,
    hcount.symm, rfl⟩

end LongCall

end ScriptLang
