import ScriptLang.Proofs.Grammar.Parsing
import ScriptLang.Proofs.Grammar.StatementLockstep

namespace ScriptLang

def SyntaxError.moved (distance : Nat) (error : SyntaxError) : SyntaxError :=
  { error with position := error.position + distance }

open Rule Grammar

namespace Pairing

def further (distance : Nat) : Pairing where
  faces _ token token' := token = token'
  shift := distance
  kind_eq h := congrArg Token.kind h.symm

variable {distance : Nat}

theorem facing_further (index : Nat) (tokens : List Token) :
    (further distance).Facing index tokens tokens := by
  induction tokens generalizing index with
  | nil => exact .nil index
  | cons token rest ih => exact .cons rfl (ih (index + 1))

theorem cursors_further (tokens : List Token) :
    (further distance).Cursors (Cursor.start tokens) ⟨distance, tokens, 0⟩ :=
  ⟨facing_further 0 tokens, (Nat.zero_add distance).symm, rfl⟩

theorem eq_of_stmts_further {trees trees' : List Stmt}
    (h : List.Forall₂ (further distance).Stmts trees trees') : trees = trees' :=
  Stmt.Mirrors.list_eq (fun _ _ ⟨_, hfaces⟩ => hfaces) h

theorem eq_moved_of_errors {error error' : SyntaxError}
    (h : (further distance).Errors error error') : error' = error.moved distance := by
  obtain ⟨hfault, htoken, hposition⟩ := h
  obtain ⟨fault', token', position'⟩ := error'
  cases hfault
  cases htoken
  cases hposition
  rfl

theorem map_moved_of_errors {errors errors' : List SyntaxError}
    (h : List.Forall₂ (further distance).Errors errors errors') :
    errors' = errors.map (SyntaxError.moved distance) := by
  induction h with
  | nil => rfl
  | cons herror _ ih => rw [List.map_cons, eq_moved_of_errors herror, ih]

end Pairing

/-- The declarations of a program are read behind others as they are from the start. -/
theorem program_further {tokens : List Token} {more : List Stmt} {c : Cursor}
    {errors : List SyntaxError} (h : parse tokens = ⟨.done more, c, errors⟩) (before : List Stmt)
    (distance : Nat) :
    ∃ c', iterate programStep before ⟨distance, tokens, 0⟩ =
      ⟨.done (before ++ more), c', errors.map (SyntaxError.moved distance)⟩ := by
  have hreadings : (Pairing.further distance).Readings ((Pairing.further distance).Later before)
      (Cursor.start tokens) (parse tokens) (iterate programStep before ⟨distance, tokens, 0⟩) :=
    Pairing.readings_program (Pairing.cursors_further tokens) rfl before
  rw [h] at hreadings
  rcases hr : iterate programStep before ⟨distance, tokens, 0⟩ with ⟨ending, c', errors'⟩
  rw [hr] at hreadings
  obtain ⟨hending, -, herrors, -⟩ := hreadings
  cases hending with
  | done hlater =>
    obtain ⟨later, rfl, hlater⟩ := hlater
    obtain rfl := Pairing.eq_of_stmts_further hlater
    obtain rfl : errors' = errors.map (SyntaxError.moved distance) :=
      Pairing.map_moved_of_errors herrors
    exact ⟨c', rfl⟩

/-- Behind tokens that form declarations the rest of a program is read as from the start. -/
theorem parse_forms_append {before rest : List Token} {trees more : List Stmt} {c : Cursor}
    {errors : List SyntaxError} (hbefore : Forms .none (.sequence trees) 0 before [] [])
    (hrest : parse rest = ⟨.done more, c, errors⟩) (hends : Ends rest) (helse : NoElse rest) :
    ∃ c', parse (before ++ rest) =
      ⟨.done (trees ++ more), c', errors.map (SyntaxError.moved before.length)⟩ := by
  obtain ⟨recorded, hrecorded, hlist⟩ :=
    hbefore.isRead Pieces.skipped_none 0 rest hends helse _ lists_program []
  obtain rfl := hrecorded.exact rfl
  obtain ⟨c', hmore⟩ := program_further hrest trees before.length
  rw [Nat.zero_add, List.nil_append, Reading.after_nil, hmore] at hlist
  exact ⟨c', hlist⟩

/-- Parsing distributes over concatenation. If the tokens before come to their end without an error
and no else follows, the statements of both parts are returned, and the errors are those of the
second part, shown by the same tokens. -/
theorem parse_append {before after : List Token} {mark mark' : Token} (hmark : mark.kind = .eof)
    (hmark' : mark'.kind = .eof) (hbefore : ∀ token ∈ before, token.kind ≠ .eof)
    (hclean : (parse (before ++ [mark'])).recorded = []) (helse : NoElse after) :
    ∃ trees more, (parse (before ++ [mark'])).ending = .done trees ∧
      (parse (after ++ [mark])).ending = .done more ∧
      (parse (before ++ after ++ [mark])).ending = .done (trees ++ more) ∧
      (parse (before ++ after ++ [mark])).recorded =
        (parse (after ++ [mark])).recorded.map (SyntaxError.moved before.length) ∧
      (parse (before ++ after ++ [mark])).recorded.map SyntaxError.diagnostic =
        (parse (after ++ [mark])).recorded.map SyntaxError.diagnostic := by
  obtain ⟨trees, errors, hfirst⟩ := parse_before_mark hmark' hbefore []
  rw [hfirst] at hclean
  obtain rfl : errors = [] := hclean
  have hends : Ends (after ++ [mark]) := ⟨mark, by simp, hmark⟩
  obtain ⟨_, _, _, more, errors', -, -, -, hsecond⟩ := parse_done hends
  -- without a second part the end mark comes next
  have helse' : NoElse (after ++ [mark]) := by
    cases after with
    | nil => exact noElse_cons [] hmark (by decide)
    | cons token rest => exact helse
  obtain ⟨c', hboth⟩ := parse_forms_append (forms_of_parse hfirst rfl rfl) hsecond hends helse'
  rw [List.append_assoc, hfirst, hsecond, hboth]
  refine ⟨trees, more, rfl, rfl, rfl, rfl, ?_⟩
  rw [List.map_map]
  rfl

def printIfTrue : List Token :=
  [bareToken .ifWord "if", bareToken .leftParen "(", bareToken .trueWord "true",
    bareToken .rightParen ")", bareToken .printWord "print", bareToken .nullWord "null",
    bareToken .semicolon ";"]

def malformedAfter : List Token :=
  [bareToken .rightBrace "\x7d", bareToken .semicolon ";", bareToken .printWord "print",
    bareToken .trueWord "true", bareToken .semicolon ";", bareToken .nullWord "null",
    bareToken .equal "=", bareToken .trueWord "true", bareToken .semicolon ";"]

/-- Behind the conditional the two errors stand seven tokens further on. -/
theorem parse_malformedAfter :
    (∀ token ∈ printIfTrue, token.kind ≠ .eof) ∧
      (parse (printIfTrue ++ [Token.endMark 1])).recorded = [] ∧ NoElse malformedAfter ∧
      ∃ trees more, (parse (printIfTrue ++ [Token.endMark 1])).ending = .done trees ∧
        (parse (malformedAfter ++ [Token.endMark 2])).ending = .done more ∧
        (parse (printIfTrue ++ malformedAfter ++ [Token.endMark 2])).ending =
          .done (trees ++ more) ∧
        (parse (malformedAfter ++ [Token.endMark 2])).recorded.map SyntaxError.position = [0, 6] ∧
        (parse (printIfTrue ++ malformedAfter ++ [Token.endMark 2])).recorded.map
          SyntaxError.position = [7, 13] := by
  have hbefore : ∀ token ∈ printIfTrue, token.kind ≠ .eof := by decide
  have hclean : (parse (printIfTrue ++ [Token.endMark 1])).recorded = [] := rfl
  have hmark : (Token.endMark 2).kind = .eof := rfl
  have helse : NoElse malformedAfter := noElse_cons _ rfl (by decide)
  have hpositions : (parse (malformedAfter ++ [Token.endMark 2])).recorded.map
      SyntaxError.position = [0, 6] := rfl
  obtain ⟨trees, more, hfirst, hsecond, hboth, hmoved, -⟩ :=
    parse_append hmark rfl hbefore hclean helse
  refine ⟨hbefore, hclean, helse, trees, more, hfirst, hsecond, hboth, hpositions, ?_⟩
  rw [hmoved, List.map_map]
  exact congrArg (List.map (· + 7)) hpositions

end ScriptLang
