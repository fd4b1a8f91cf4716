import ScriptLang.Proofs.Grammar.Concatenation

namespace ScriptLang

open Rule Grammar

/-- Two readings that differ at most in the tokens that are left where they end. -/
structure Reading.SameOutcome {α : Type} (reading reading' : Reading α) : Prop where
  ending : reading.ending = reading'.ending
  recorded : reading.recorded = reading'.recorded
  position : reading.cursor.position = reading'.cursor.position
  openBlocks : reading.cursor.openBlocks = reading'.cursor.openBlocks

namespace Pairing

/-- Before an end mark, and at it, the tokens are the same, and behind it nothing is asked. -/
theorem facing_endMark {distance : Nat} {mark : Token} (hmark : mark.kind = .eof)
    (index : Nat) (body later later' : List Token) :
    (further distance).Facing index (body ++ mark :: later) (body ++ mark :: later') := by
  induction body generalizing index with
  | nil => exact .mark later later' rfl hmark
  | cons token rest ih => exact .cons rfl (ih (index + 1))

/-- Readings on tokens that are faced by themselves, where they stand. -/
theorem Readings.sameOutcome {α : Type} {Q : α → α → Prop} {c : Cursor}
    {reading reading' : Reading α} (h : (further 0).Readings Q c reading reading')
    (hQ : ∀ value value', Q value value' → value = value') : reading.SameOutcome reading' where
  ending := by
    have hending := h.ending
    generalize reading.ending = ending at hending
    generalize reading'.ending = ending' at hending
    cases hending with
    | done hvalue => rw [hQ _ _ hvalue]
    | stopped herror => exact congrArg Ending.stopped (eq_moved_of_errors herror).symm
    | ranOut => rfl
  recorded := by
    have hmoved := map_moved_of_errors h.recorded
    exact (hmoved.trans (List.map_id reading.recorded)).symm
  position := h.cursors.position_eq.symm
  openBlocks := h.cursors.openBlocks_eq.symm

theorem inStep_wholeExpression {P : Pairing} (n : Nat) :
    P.InStep n P.Exprs wholeExpression wholeExpression := by
  refine inStep_bind (inStep_expression n) fun value value' h => ?_
  refine inStep_bind inStep_atEnd fun isEnd _ hend => ?_
  subst hend
  split
  · exact inStep_pure h
  · exact inStep_stop _

end Pairing

/-- Nothing behind the first end mark is ever read. Parsing a program, and parsing one expression,
come to the same result or the same error, with the same recorded errors and at the same index, as
they do when the list ends with the mark. -/
theorem parse_endMark_append {mark : Token} (hmark : mark.kind = .eof) (body later : List Token) :
    (parse (body ++ mark :: later)).SameOutcome (parse (body ++ [mark])) ∧
      (parseExpression (body ++ mark :: later)).SameOutcome
        (parseExpression (body ++ [mark])) := by
  have hstart : (Pairing.further 0).Cursors (Cursor.start (body ++ mark :: later))
      (Cursor.start (body ++ [mark])) := ⟨Pairing.facing_endMark hmark 0 body later [], rfl, rfl⟩
  constructor
  · apply Pairing.Readings.sameOutcome (Pairing.readings_program hstart rfl [])
    intro trees trees' h
    exact Pairing.eq_of_stmts_further (Pairing.later_nil.mp h)
  · apply Pairing.Readings.sameOutcome
      (Pairing.inStep_wholeExpression _ _ _ hstart (Nat.le_refl _))
    intro tree tree' h
    exact h.eq fun _ _ ⟨_, hfaces⟩ => hfaces

/-- Two errors come from before the end mark, and none from the statement without a semicolon that
stands behind it. -/
theorem parse_malformedAfter_append : (Token.endMark 2).kind = .eof ∧
    let tokens := malformedAfter ++ Token.endMark 2 :: [bareToken .printWord "print"]
    (parse tokens).recorded.map SyntaxError.position = [0, 6] ∧
    (parse tokens).cursor.position = 9 ∧
    (parseExpression tokens).ending =
      .stopped ⟨.expectedExpression, bareToken .rightBrace "\x7d", 0⟩ := by
  have hmark : (Token.endMark 2).kind = .eof := rfl
  obtain ⟨hprogram, hexpression⟩ :=
    parse_endMark_append hmark malformedAfter [bareToken .printWord "print"]
  refine ⟨hmark, ?_, hprogram.position, hexpression.ending⟩
  rw [hprogram.recorded]
  rfl

end ScriptLang
