import ScriptLang.FrontEnd.Run
import ScriptLang.Proofs.FrontEnd.Stages
import ScriptLang.Proofs.Grammar.Totality

namespace ScriptLang

theorem Stage.ofName?_eq_some_iff {name : String} {stage : Stage} :
    Stage.ofName? name = some stage ↔ stage.name = name := by
  constructor
  · intro h
    unfold Stage.ofName? at h
    split at h <;> cases h <;> rfl
  · rintro rfl
    cases stage <;> rfl

namespace Order

variable (directory source : String) (file : Option String) (dump : List String)
  (last : Option String)

theorem contains_dump_ofNames (stage : Stage) :
    (ofNames directory source file dump last).dump.contains stage ↔ stage.name ∈ dump := by
  unfold ofNames
  simp [Stage.ofName?_eq_some_iff]

theorem stopAfterTokens_ofNames :
    (ofNames directory source file dump last).stopAfterTokens ↔ last = some "tokens" := by
  unfold ofNames
  rw [decide_eq_true_iff, Option.bind_eq_some_iff]
  constructor
  · rintro ⟨name, rfl, hname⟩
    rw [← Stage.ofName?_eq_some_iff.mp hname]
    rfl
  · rintro rfl
    exact ⟨_, rfl, rfl⟩

end Order

/-- A line that counts the errors and names the source, and then the message of each error. -/
theorem Failure.message_eq (failure : Failure) : failure.message =
    "\n".intercalate (("Error: " ++ (toString failure.errors.length ++ " error(s) found in '" ++
      failure.label ++ "'.")) :: failure.errors.map Diagnostic.message) := rfl

namespace FrontEndRun

variable (run : FrontEndRun)

theorem result_of_errors_nil (h : run.errors = []) : run.result = .ok run.final := by
  unfold result
  rw [h, List.isEmpty_nil, if_pos rfl]

theorem result_of_errors_ne_nil (h : run.errors ≠ []) :
    run.result = .error ⟨run.order.label, run.errors⟩ := by
  unfold result
  rw [if_neg (by rwa [List.isEmpty_iff])]

theorem result_eq_error_iff {failure : Failure} : run.result = .error failure ↔
    run.errors ≠ [] ∧ failure = ⟨run.order.label, run.errors⟩ := by
  by_cases h : run.errors = []
  · rw [run.result_of_errors_nil h]
    exact iff_of_false nofun fun hfails => hfails.1 h
  · rw [run.result_of_errors_ne_nil h, Except.error.injEq, eq_comm]
    exact (and_iff_right h).symm

end FrontEndRun

theorem parse_of_ending {tokens : List Token} {trees : List Stmt}
    (h : (parse tokens).ending = .done trees) :
    parse tokens = ⟨.done trees, (parse tokens).cursor, (parse tokens).recorded⟩ := by
  rw [← h]

namespace Order

variable (order : Order)

/-- The artifacts of a run, of which parsing always makes one. -/
theorem exists_artifacts_run : ∃ trees, (parse (scan order.source).tokens).ending = .done trees ∧
    order.run.artifacts = (.tokens, .tokens (scan order.source).tokens) ::
      (if order.stopAfterTokens then [] else [(.ast, .ast trees)]) ∧
    order.run.final = if order.stopAfterTokens then .tokens (scan order.source).tokens
      else .ast trees := by
  obtain ⟨used, mark, trees, errors, -, -, hparse⟩ := parse_scan order.source
  have htrees : FrontEndRun.statements (parse (scan order.source).tokens) = trees := by
    rw [hparse]
    rfl
  refine ⟨trees, by rw [hparse], ?_⟩
  rw [← htrees]
  unfold FrontEndRun.artifacts FrontEndRun.final run
  cases order.stopAfterTokens <;> exact ⟨rfl, rfl⟩

theorem errors_run : order.run.errors = (scan order.source).errors.map LexicalError.diagnostic ++
    if order.stopAfterTokens then []
    else (parse (scan order.source).tokens).recorded.map SyntaxError.diagnostic := by
  unfold FrontEndRun.errors FrontEndRun.syntaxErrors run
  cases order.stopAfterTokens <;> rfl

end Order

open Grammar

/-- A run of the front end fails if and only if scanning or parsing found an error. Its failure has
the errors of both, as one report has them that is shared by the two, and its message counts them
and lists each of them. Otherwise the run returns the tokens or the statements. Which stages are
saved makes no difference to that, and a run that stops after the tokens has the first of the errors
of a whole one. -/
theorem run_surfaces_errors (directory source : String) (file : Option String) (dump : List String)
    (last : Option String) :
    let order := Order.ofNames directory source file dump last
    let tokens := (scan source).tokens
    let lexical := (scan source).errors.map LexicalError.diagnostic
    let syntactic := (parse tokens).recorded.map SyntaxError.diagnostic
    let found := lexical ++ if last = some "tokens" then [] else syntactic
    ∃ trees, (parse tokens).ending = .done trees ∧
      order.run.errors = found ∧
      ((∃ failure, order.run.result = .error failure) ↔ found ≠ []) ∧
      (∀ failure, order.run.result = .error failure → failure.errors = found ∧
        failure.message = "\n".intercalate (("Error: " ++ (toString found.length ++
          " error(s) found in '" ++ order.label ++ "'.")) :: found.map Diagnostic.message)) ∧
      (found = [] → order.run.result =
        .ok (if last = some "tokens" then .tokens tokens else .ast trees)) ∧
      (order.run.dumped = ((Stage.tokens, Artifact.tokens tokens) ::
        if last = some "tokens" then [] else [(Stage.ast, Artifact.ast trees)]).filter
          fun entry => entry.1.name ∈ dump) ∧
      (∀ dump', let other := (Order.ofNames directory source file dump' last).run
        other.result = order.run.result ∧ other.artifacts = order.run.artifacts) ∧
      (Order.ofNames directory source file dump (some "tokens")).run.errors <+:
        order.run.errors ∧
      ∃ parser bench, (Workbench.empty.lex source).report = lexical ∧
        (Workbench.empty.lex source).runRule (Parser.start tokens) true program =
          (.done trees, parser, bench) ∧
        bench.report = lexical ++ syntactic := by
  intro order tokens lexical syntactic found
  obtain ⟨trees, hending, hartifacts, hfinal⟩ := order.exists_artifacts_run
  have hstop : order.stopAfterTokens = true ↔ last = some "tokens" :=
    Order.stopAfterTokens_ofNames directory source file dump last
  have herrors : order.run.errors = found := by
    rw [order.errors_run]
    simp only [hstop]
    rfl
  simp only [hstop] at hartifacts hfinal
  refine ⟨trees, hending, herrors, ?_, ?_, ?_, ?_, ?_, ?_, ?_⟩
  · constructor
    · rintro ⟨failure, hfailure⟩
      rw [← herrors]
      exact (order.run.result_eq_error_iff.mp hfailure).1
    · intro hne
      exact ⟨_, order.run.result_eq_error_iff.mpr ⟨herrors ▸ hne, rfl⟩⟩
  · intro failure hfailure
    obtain ⟨-, rfl⟩ := order.run.result_eq_error_iff.mp hfailure
    rw [Failure.message_eq, herrors]
    exact ⟨rfl, rfl⟩
  · intro hnil
    rw [FrontEndRun.result_of_errors_nil _ (herrors.trans hnil), hfinal]
    rfl
  · unfold FrontEndRun.dumped
    rw [hartifacts]
    refine List.filter_congr fun entry _ => ?_
    rw [Bool.eq_iff_iff, decide_eq_true_iff]
    exact Order.contains_dump_ofNames directory source file dump last entry.1
  · exact fun dump' => ⟨rfl, rfl⟩
  -- the run that stops after the tokens finds the lexical errors, which come first
  · have hfirst := (Order.stopAfterTokens_ofNames directory source file dump _).mpr rfl
    rw [herrors, Order.errors_run, if_pos hfirst, List.append_nil]
    exact List.prefix_append _ _
  · obtain ⟨bench, hrun, hreport⟩ := runRule_program (parse_of_ending hending)
      (Workbench.empty.lex source)
    exact ⟨_, bench, rfl, hrun, hreport⟩

theorem scan_strays : (scan "@)").errors = [⟨.unexpectedCharacter '@', 1⟩] ∧
    (scan "@)").tokens = [⟨.rightParen, ")", .null, 1⟩, Token.endMark 1] := by
  have hpieces : Segment.ofSource "@)".toList =
      [.unexpected '@', .token .rightParen .null [')']] := by
    have hlist : "@)".toList = ['@', ')'] := by decide
    rw [hlist]
    iterate 2 apply Segment.ofSource_of_cut rfl
    exact Segment.ofSource_nil
  rw [errors_scan, tokens_scan, hpieces]
  exact ⟨rfl, rfl⟩

theorem scan_braces : (scan "\x7b\x7d").errors = [] ∧ (scan "\x7b\x7d").tokens =
    [⟨.leftBrace, "\x7b", .null, 1⟩, ⟨.rightBrace, "\x7d", .null, 1⟩, Token.endMark 1] := by
  have hpieces : Segment.ofSource "\x7b\x7d".toList =
      [.token .leftBrace .null ['\x7b'], .token .rightBrace .null ['\x7d']] := by
    have hlist : "\x7b\x7d".toList = ['\x7b', '\x7d'] := by decide
    rw [hlist]
    iterate 2 apply Segment.ofSource_of_cut rfl
    exact Segment.ofSource_nil
  rw [errors_scan, tokens_scan, hpieces]
  exact ⟨rfl, rfl⟩

/-- A run that fails with an error of each stage, and one that returns a block. -/
theorem strays_surface : (∃ failure,
      (Order.ofNames "/" "@)" none ["tokens"] none).run.result = .error failure ∧
        failure.errors.length = 2 ∧
        failure.message = "Error: 2 error(s) found in '<stdin>'.\n" ++
          "[line 1] Error: Unexpected character '@'.\n[line 1] Error at ')': Expect expression.") ∧
    (Order.ofNames "/" "\x7b\x7d" none [] (some "ast")).run.result =
      .ok (.ast [.block 1 []]) := by
  constructor
  · obtain ⟨trees, hending, -, hfails, hmessage, -⟩ :=
      run_surfaces_errors "/" "@)" none ["tokens"] none
    rw [scan_strays.1, scan_strays.2] at hfails hmessage
    obtain ⟨failure, hfailure⟩ := hfails.mpr (List.cons_ne_nil _ _)
    obtain ⟨herrors, htext⟩ := hmessage failure hfailure
    refine ⟨failure, hfailure, by rw [herrors]; rfl, ?_⟩
    rw [htext]
    decide
  · obtain ⟨trees, hending, -, -, -, hreturns, -⟩ :=
      run_surfaces_errors "/" "\x7b\x7d" none [] (some "ast")
    rw [scan_braces.2] at hending
    rw [scan_braces.1, scan_braces.2] at hreturns
    rw [hreturns rfl]
    cases hending
    rfl

end ScriptLang
