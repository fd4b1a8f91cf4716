import ScriptLang.Proofs.Grammar.Parsing
import ScriptLang.Workbench

namespace ScriptLang

namespace Rule

variable {α β : Type} {p : Rule α} {f : α → Rule β}

def NeverStops (r : Rule α) : Prop := ∀ c error, (r c).ending ≠ .stopped error

theorem neverStops_pure (value : α) : NeverStops (pure value : Rule α) := by
  rintro c error ⟨⟩

theorem neverStops_peek : NeverStops peek := by
  rintro ⟨position, rest, openBlocks⟩ error
  cases rest <;> nofun

theorem neverStops_next : NeverStops next := by
  rintro ⟨position, rest, openBlocks⟩ error
  cases rest <;> nofun

theorem neverStops_insideBlock : NeverStops insideBlock := by
  rintro c error ⟨⟩

theorem neverStops_recordError (error : SyntaxError) : NeverStops (recordError error) := by
  rintro c other ⟨⟩

theorem NeverStops.bind (hp : NeverStops p) (hf : ∀ value, NeverStops (f value)) :
    NeverStops (p >>= f) := by
  intro c error h
  rcases hr : p c with ⟨ending, c', errors⟩
  cases ending with
  | done value =>
    rw [bind_of_done hr] at h
    exact hf value c' error h
  | stopped first => exact hp c first (congrArg Reading.ending hr)
  | ranOut =>
    rw [bind_of_ranOut hr] at h
    cases h

theorem NeverStops.ite {condition : Prop} [Decidable condition] {r s : Rule α}
    (hr : NeverStops r) (hs : NeverStops s) : NeverStops (if condition then r else s) := by
  split
  · exact hr
  · exact hs

theorem NeverStops.iterate {step : α → Rule (Option α)} (hstep : ∀ value, NeverStops (step value))
    (value : α) : NeverStops (iterate step value) := by
  have hwithin (bound : Nat) : ∀ value, NeverStops (iterateWithin step bound value) := by
    induction bound with
    | zero => rintro value c error ⟨⟩
    | succ bound ih =>
      intro value
      refine (hstep value).bind fun found => ?_
      cases found with
      | some value' => exact ih value'
      | none => exact neverStops_pure value
  exact fun c => hwithin c.rest.length value c

theorem NeverStops.rescue {handler : SyntaxError → Rule α}
    (hhandler : ∀ error, NeverStops (handler error)) : NeverStops (rescue p handler) := by
  intro c error h
  rcases hr : p c with ⟨ending, c', errors⟩
  cases ending with
  | done value =>
    rw [rescue_of_done hr] at h
    cases h
  | stopped first =>
    rw [rescue_of_stopped hr] at h
    exact hhandler first c' error h
  | ranOut =>
    rw [rescue_of_ranOut hr] at h
    cases h

theorem neverStops_atEnd : NeverStops atEnd := neverStops_peek.bind fun _ => neverStops_pure _

theorem neverStops_isNext (kind : TokenKind) : NeverStops (isNext kind) :=
  neverStops_peek.bind fun _ => neverStops_pure _

end Rule

open Rule Grammar

namespace Grammar

theorem neverStops_atClosingBrace : NeverStops atClosingBrace :=
  neverStops_insideBlock.bind fun _ => (neverStops_isNext _).ite (neverStops_pure _)

theorem neverStops_dropStep (dropped : Token) : NeverStops (dropStep dropped) := by
  refine neverStops_peek.bind fun token => (neverStops_pure _).ite ?_
  refine neverStops_atClosingBrace.bind fun closing => (neverStops_pure _).ite ?_
  exact neverStops_next.bind fun _ => neverStops_pure _

theorem neverStops_synchronize : NeverStops synchronize := by
  rw [synchronize_eq]
  refine neverStops_atClosingBrace.bind fun _ => (neverStops_pure ()).ite ?_
  refine neverStops_atEnd.bind fun _ => (neverStops_pure ()).ite ?_
  refine neverStops_next.bind fun dropped => ?_
  exact (NeverStops.iterate neverStops_dropStep dropped).bind fun _ => neverStops_pure ()

/-- No error stops the rule for declarations, wherever it is called. -/
theorem neverStops_declaration : NeverStops declaration := by
  rw [declaration_eq]
  refine NeverStops.rescue fun error => (neverStops_recordError error).bind fun _ => ?_
  exact neverStops_synchronize.bind fun _ => neverStops_pure none

theorem neverStops_program : NeverStops program := by
  refine NeverStops.iterate (fun _ => neverStops_atEnd.bind fun _ => ?_) []
  exact (neverStops_pure none).ite (neverStops_declaration.bind fun _ => neverStops_pure _)

/-- A call of the rule for declarations gets ahead. -/
theorem Call.IsMade.advances {call : Call} (h : call.IsMade) :
    call.before.position < call.after.position := by
  obtain ⟨statement?, errors, hdone⟩ := h.done
  exact (declaration_advances h.asked hdone).1

end Grammar

/-- Without an end mark the declarations of a program use up all tokens and read on. -/
theorem program_ranOut (c : Cursor) (hopen : c.openBlocks = 0) (hends : ¬ Ends c.rest)
    (read : List Stmt) :
    ∃ errors, iterate programStep read c =
      ⟨.ranOut, ⟨c.position + c.rest.length, [], 0⟩, errors⟩ := by
  -- on the tokens that are left: a declaration is read, or given up, or there are no more of them
  induction hlength : c.rest.length using Nat.strongRecOn generalizing c read with
  | ind length ih =>
    subst hlength
    obtain ⟨position, rest, openBlocks⟩ := c
    cases hopen
    cases rest with
    | nil =>
      refine ⟨[], ?_⟩
      rw [iterate_eq programStep_advances read _ rfl,
        bind_of_ranOut (programStep_advances.starves read _ rfl rfl)]
      rfl
    | cons token rest =>
      have heof : token.kind ≠ .eof := fun heof => hends ⟨token, List.mem_cons_self, heof⟩
      obtain ⟨-, hkeeps, hprogress⟩ := agreeOnDeclarations _ _ (Nat.le_refl _)
      rcases hr : declaration ⟨position, token :: rest, 0⟩ with ⟨ending, c', errors⟩
      rw [hr] at hkeeps hprogress
      obtain ⟨used, hm, -⟩ := hkeeps.moves
      have hrest : token :: rest = used ++ c'.rest := hm.rest_eq
      have hposition : c'.position = position + used.length := hm.position_eq
      cases ending with
      | done statement? =>
        have hlt := hprogress statement? rfl token rest rfl (by simp [isKept_iff, heof])
        have hends' : ¬ Ends c'.rest := by
          rintro ⟨mark, hmem, hmark⟩
          exact hends ⟨mark, by rw [hrest]; exact List.mem_append_right used hmem, hmark⟩
        obtain ⟨errors', hmore⟩ :=
          ih _ hlt c' hm.openBlocks_eq hends' (read ++ statement?.toList) rfl
        refine ⟨errors ++ errors', ?_⟩
        rw [program_of_declaration read position rest heof hr, hmore, hposition, hrest,
          List.length_append, Nat.add_assoc]
        rfl
      | stopped error =>
        exact absurd (congrArg Reading.ending hr) (neverStops_declaration _ error)
      | ranOut =>
        have hnil : c'.rest = [] := hkeeps.starves rfl
        have hc' : c' = ⟨position + used.length, c'.rest, 0⟩ := hm.eq_mk
        rw [hnil] at hc' hrest
        refine ⟨errors, ?_⟩
        rw [iterate_eq programStep_advances read _ rfl]
        refine bind_of_ranOut ?_
        rw [programStep_of_not_eof read position 0 rest heof, map_eq_bind, bind_of_ranOut hr, hc',
          hrest, List.append_nil]

theorem parse_ranOut {tokens : List Token} (hends : ¬ Ends tokens) :
    ∃ errors, parse tokens = ⟨.ranOut, ⟨tokens.length, [], 0⟩, errors⟩ := by
  obtain ⟨errors, h⟩ := program_ranOut (Cursor.start tokens) rfl hends []
  have hposition : (Cursor.start tokens).position + tokens.length = tokens.length :=
    Nat.zero_add _
  exact ⟨errors, by rw [← hposition]; exact h⟩

/-- A parser whose errors are shared reports all errors that parsing records, in their order. -/
theorem runRule_program {tokens : List Token} {trees : List Stmt} {c : Cursor}
    {errors : List SyntaxError} (h : parse tokens = ⟨.done trees, c, errors⟩) (bench : Workbench) :
    ∃ bench' : Workbench,
      bench.runRule (Parser.start tokens) true program = (.done trees, ⟨c, errors⟩, bench') ∧
      bench'.report = bench.report ++ errors.map SyntaxError.diagnostic := by
  have hreading : program (Parser.start tokens).cursor = ⟨.done trees, c, errors⟩ := h
  have hrun : (Parser.start tokens).run program = (.done trees, ⟨c, errors⟩) := by
    unfold Parser.run
    rw [hreading]
    rfl
  unfold Workbench.runRule
  rw [hrun]
  exact ⟨_, rfl, rfl⟩

/-- Parsing ends for every token list. It runs out of tokens exactly if there is no end mark, and
then it has used up all of them. Otherwise it comes to the first end mark with no block open. On the
way there every call of the rule for declarations gets ahead, and the errors that stopped attempts
at a declaration are recorded once each, in their order, in the result and in the report. -/
theorem parse_total (tokens : List Token) :
    ((parse tokens).ending = .ranOut ↔ ¬ Ends tokens) ∧
      ((parse tokens).ending = .ranOut → (parse tokens).cursor = ⟨tokens.length, [], 0⟩) ∧
      (Ends tokens → ∃ body mark later trees errors calls,
        tokens = body ++ mark :: later ∧ mark.kind = .eof ∧ (∀ token ∈ body, token.kind ≠ .eof) ∧
        parse tokens = ⟨.done trees, ⟨body.length, mark :: later, 0⟩, errors⟩ ∧
        Traverses .declarations (Cursor.start tokens) body ⟨body.length, mark :: later, 0⟩ calls ∧
        (∀ call ∈ calls, call.IsMade ∧ call.before.position < call.after.position) ∧
        raisedErrors errors = calls.filterMap Call.raised? ∧
        ∀ bench : Workbench, ∃ bench' : Workbench,
          bench.runRule (Parser.start tokens) true program =
            (.done trees, ⟨⟨body.length, mark :: later, 0⟩, errors⟩, bench') ∧
          bench'.report = bench.report ++ errors.map SyntaxError.diagnostic) := by
  by_cases hends : Ends tokens
  · obtain ⟨body, mark, later, trees, errors, calls, htokens, hmark, hnone, hparse, hway,
      hraised⟩ := parse_traverses hends
    have hending : (parse tokens).ending ≠ .ranOut := by
      rw [hparse]
      nofun
    refine ⟨⟨fun h => absurd h hending, fun h => absurd hends h⟩, fun h => absurd h hending,
      fun _ => ⟨body, mark, later, trees, errors, calls, htokens, hmark, hnone, hparse, hway, ?_,
        hraised, runRule_program hparse⟩⟩
    intro call hmem
    have hmade := hway.isMade hends call hmem
    exact ⟨hmade, hmade.advances⟩
  · obtain ⟨errors, hparse⟩ := parse_ranOut hends
    rw [hparse]
    exact ⟨⟨fun _ => hends, fun _ => rfl⟩, fun _ => rfl, fun h => absurd h hends⟩

def strayTokens : List Token :=
  [⟨.rightParen, ")", .null, 1⟩, ⟨.rightBrace, "\x7d", .null, 1⟩, ⟨.semicolon, ";", .null, 1⟩,
    ⟨.elseWord, "else", .null, 1⟩, ⟨.equal, "=", .null, 1⟩]

/-- Both pieces are given up, with one error each; without the end mark parsing runs out. -/
theorem parse_strayTokens :
    ¬ Ends strayTokens ∧ (parse strayTokens).cursor = ⟨5, [], 0⟩ ∧
      Ends (strayTokens ++ [Token.endMark 1]) ∧
      ∃ calls : List Call,
        (∀ call ∈ calls, call.IsMade ∧ call.before.position < call.after.position) ∧
        calls.filterMap Call.raised? =
          [⟨.expectedExpression, ⟨.rightParen, ")", .null, 1⟩, 0⟩,
            ⟨.expectedExpression, ⟨.elseWord, "else", .null, 1⟩, 3⟩] := by
  have hends : ¬ Ends strayTokens := by simp [Ends, strayTokens]
  have hends' : Ends (strayTokens ++ [Token.endMark 1]) := ⟨Token.endMark 1, by simp, rfl⟩
  obtain ⟨hiff, hcursor, -⟩ := parse_total strayTokens
  obtain ⟨-, -, hdone⟩ := parse_total (strayTokens ++ [Token.endMark 1])
  obtain ⟨body, mark, later, trees, errors, calls, -, -, -, hparse, -, hcalls, hraised, -⟩ :=
    hdone hends'
  have herrors : (parse (strayTokens ++ [Token.endMark 1])).recorded =
      [⟨.expectedExpression, ⟨.rightParen, ")", .null, 1⟩, 0⟩,
        ⟨.expectedExpression, ⟨.elseWord, "else", .null, 1⟩, 3⟩] := rfl
  rw [hparse] at herrors
  refine ⟨hends, hcursor (hiff.mpr hends), hends', calls, hcalls, ?_⟩
  rw [← hraised, show errors = _ from herrors]
  rfl

end ScriptLang
