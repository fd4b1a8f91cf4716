import ScriptLang.Proofs.Grammar.Leaves
import ScriptLang.Proofs.Source.Layout

namespace ScriptLang

open Grammar

section Handover

variable {source : String} {token : Token}

/-- Parsing the tokens of a scan uses up all but the end mark. -/
theorem parse_scan (source : String) : ∃ used mark trees errors,
    (scan source).tokens = used ++ [mark] ∧ (∀ token ∈ used, token.kind ≠ .eof) ∧
      parse (scan source).tokens = ⟨.done trees, ⟨used.length, [mark], 0⟩, errors⟩ := by
  have hnone : ∀ token ∈ (Segment.withLines 1 (Segment.ofSource source.toList)).filterMap
      Segment.token?, token.kind ≠ .eof := fun token hmem => (lexeme_of_mem hmem).kind_ne_eof
  have hmark : (Token.endMark (1 + source.toList.count '\n')).kind = .eof := rfl
  obtain ⟨trees, errors, hparse⟩ := parse_before_mark hmark hnone []
  exact ⟨_, _, trees, errors, tokens_scan source, hnone, hparse⟩

theorem Lexeme.carriesLiteral {kind : TokenKind} {literal : Literal} {text : List Char}
    (h : Lexeme kind literal text) (lexeme : String) (line : Int) :
    (Token.mk kind lexeme literal line).carriesLiteral := by
  cases h with
  | mark h =>
    have hall : ∀ entry ∈ marks, ∀ lexeme line,
        (Token.mk entry.2 lexeme .null line).carriesLiteral := by
      simp [marks, Token.carriesLiteral]
    exact hall _ h lexeme line
  | reserved h =>
    have hall : ∀ entry ∈ words, ∀ lexeme line,
        (Token.mk entry.2.1 lexeme entry.2.2 line).carriesLiteral := by
      simp [words, Token.carriesLiteral]
    exact hall _ h lexeme line
  | _ => rfl

theorem carriesLiteral_of_scan (h : token ∈ (scan source).tokens) : token.carriesLiteral := by
  by_cases hkind : token.kind = .eof
  · unfold Token.carriesLiteral
    rw [hkind]
  · exact (lexeme_of_scan h hkind).carriesLiteral token.lexeme token.line

/-- The leaves of the statements of a source tell of its tokens, one by one. -/
theorem shown_of_scan (hclean : (parse (scan source).tokens).recorded = []) :
    ∃ used mark trees, (scan source).tokens = used ++ [mark] ∧
      (∀ token ∈ used, token.kind ≠ .eof) ∧
      (parse (scan source).tokens).ending = .done trees ∧ Shown (Stmt.leavesOfAll trees) used := by
  obtain ⟨used, mark, trees, errors, htokens, hnone, hparse⟩ := parse_scan source
  have hcarries : ∀ token ∈ used, token.carriesLiteral := by
    intro token hmem
    have hscanned : token ∈ (scan source).tokens := by
      rw [htokens]
      exact List.mem_append_left _ hmem
    exact carriesLiteral_of_scan hscanned
  rw [hparse] at hclean
  obtain rfl : errors = [] := hclean
  have hforms := forms_of_parse hparse htokens rfl
  refine ⟨used, mark, trees, htokens, hnone, ?_, hforms.shows rfl hcarries⟩
  rw [hparse]

end Handover

end ScriptLang
