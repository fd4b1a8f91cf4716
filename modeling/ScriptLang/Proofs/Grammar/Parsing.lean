import ScriptLang.Proofs.Grammar.StatementYields
import ScriptLang.Proofs.Grammar.Traversal
import ScriptLang.Syntax.Parse

namespace ScriptLang

open Rule Grammar

/-- Before the first end mark the tokens are gone over as the declarations of a program. -/
theorem parse_traverses {tokens : List Token} (hends : Ends tokens) :
    ∃ body mark later trees errors calls,
      tokens = body ++ mark :: later ∧ mark.kind = .eof ∧ (∀ token ∈ body, token.kind ≠ .eof) ∧
      parse tokens = ⟨.done trees, ⟨body.length, mark :: later, 0⟩, errors⟩ ∧
      Traverses .declarations (Cursor.start tokens) body ⟨body.length, mark :: later, 0⟩ calls ∧
      raisedErrors errors = calls.filterMap Call.raised? := by
  obtain ⟨trees, body, stop, mark, later, errors, calls, hkept, hparse, hway, hraised⟩ :=
    listLoop_program.traverses (goes_attempt_all _) (Cursor.start tokens) (Nat.le_refl _) rfl
      hends []
  obtain ⟨hm, hnone⟩ := hway.moves
  obtain rfl : stop = body.length := hm.position_eq.trans (Nat.zero_add _)
  have hmark : mark.kind = .eof := by simpa [isKept_iff] using hkept
  exact ⟨body, mark, later, trees, errors, calls, hm.rest_eq, hmark, hnone, hparse, hway, hraised⟩

/-- Parsing comes to the first end mark, whatever the tokens before it are. -/
theorem parse_done {tokens : List Token} (h : Ends tokens) :
    ∃ used mark later trees errors, tokens = used ++ mark :: later ∧ mark.kind = .eof ∧
      (∀ token ∈ used, token.kind ≠ .eof) ∧
      parse tokens = ⟨.done trees, ⟨used.length, mark :: later, 0⟩, errors⟩ := by
  obtain ⟨used, mark, later, trees, errors, -, htokens, hmark, hnone, hparse, -⟩ :=
    parse_traverses h
  exact ⟨used, mark, later, trees, errors, htokens, hmark, hnone, hparse⟩

/-- The tokens up to the first end mark. -/
theorem takeWhile_before_mark {used : List Token} {mark : Token} (hmark : mark.kind = .eof)
    (hnone : ∀ token ∈ used, token.kind ≠ .eof) (later : List Token) :
    ((used ++ mark :: later).takeWhile fun token => token.kind ≠ .eof) = used := by
  rw [List.takeWhile_append_of_pos (by simpa using hnone),
    List.takeWhile_cons_of_neg (by simp [hmark]), List.append_nil]

/-- Parsing uses up the tokens before the first end mark. -/
theorem parse_before_mark {body : List Token} {mark : Token} (hmark : mark.kind = .eof)
    (hnone : ∀ token ∈ body, token.kind ≠ .eof) (later : List Token) :
    ∃ trees errors, parse (body ++ mark :: later) =
      ⟨.done trees, ⟨body.length, mark :: later, 0⟩, errors⟩ := by
  have hends : Ends (body ++ mark :: later) := ⟨mark, by simp, hmark⟩
  obtain ⟨used, mark', later', trees, errors, htokens, hmark', hnone', hparse⟩ := parse_done hends
  have hused : used = body := by
    rw [← takeWhile_before_mark hmark' hnone' later', ← htokens]
    exact takeWhile_before_mark hmark hnone later
  subst hused
  have hlater := List.append_cancel_left htokens
  rw [← hlater] at hparse
  exact ⟨trees, errors, hparse⟩

/-- If no error stopped a declaration, the tokens used up form the statements that were read. -/
theorem forms_of_parse {tokens used rest : List Token} {trees : List Stmt}
    {errors : List SyntaxError}
    (h : parse tokens = ⟨.done trees, ⟨used.length, rest, 0⟩, errors⟩)
    (htokens : tokens = used ++ rest)
    (hraised : raisedErrors errors = []) :
    Forms .none (.sequence trees) 0 used errors [] := by
  obtain ⟨-, used', hm, hforms⟩ := listStep_program.yields programStep_advances
    (yields_declaration (yields_attempt_all tokens.length)) (Cursor.start tokens) rfl
      (Nat.le_refl _)
    [] trees _ errors h
  have hused : used' = used := List.append_cancel_right (hm.rest_eq.symm.trans htokens)
  obtain ⟨trees', rfl, hforms⟩ := hforms hraised
  rw [← hused]
  exact hforms

/-- Tokens that form statements are parsed as these statements, and each malformed piece between
them is skipped with one error that stopped a declaration. -/
theorem parse_of_forms {pieces : Pieces} (hpieces : pieces.Skipped) {trees : List Stmt}
    {ts : List Token} {errors : List SyntaxError} {skipped : List Span}
    (h : Forms pieces (.sequence trees) 0 ts errors skipped) {mark : Token}
    (hmark : mark.kind = .eof) (later : List Token) :
    ∃ recorded, Accounts errors skipped recorded ∧
      parse (ts ++ mark :: later) = ⟨.done trees, ⟨ts.length, mark :: later, 0⟩, recorded⟩ := by
  have hends : Ends (mark :: later) := ⟨mark, List.mem_cons_self .., hmark⟩
  obtain ⟨recorded, hrecorded, hlist⟩ :=
    h.isRead hpieces 0 (mark :: later) hends (noElse_cons later hmark (by decide)) _ lists_program
      []
  refine ⟨recorded, hrecorded, ?_⟩
  have hend := program_of_eof trees (0 + ts.length) later hmark
  rw [Nat.zero_add] at hlist hend
  rw [List.nil_append, hend, Reading.after_mk, List.append_nil] at hlist
  exact hlist

end ScriptLang
