import ScriptLang.Proofs.Source.Breaks

namespace ScriptLang

def Token.moveDown (lines : Int) (token : Token) : Token :=
  { token with line := token.line + lines }

def LexicalError.moveDown (lines : Int) (error : LexicalError) : LexicalError :=
  { error with line := error.line + lines }

namespace Segment

section Pieces

variable {source : List Char}

/-- Every piece of a source but an open string ends where a newline would end it. -/
theorem ofSource_append_newline (h : ∀ text, .unterminated text ∉ ofSource source)
    (tail : List Char) :
    ofSource (source ++ '\n' :: tail) = ofSource source ++ .newline :: ofSource tail := by
  fun_induction ofSource source with
  | case1 => exact ofSource_of_cut rfl rfl
  | case2 c rest ih =>
    have hstops : (cut c rest).1.StopsBefore '\n' := by
      generalize hcut : (cut c rest).1 = segment at h
      cases segment with
      | comment text => rfl
      | unterminated text => exact absurd List.mem_cons_self (h text)
      | _ => exact (by decide : '\n' ∈ breaks)
    have hafter := ih fun text hmem => h text (List.mem_cons_of_mem _ hmem)
    exact ofSource_of_cut (cut_append hstops) hafter

end Pieces

section Lines

variable {line : Int}

theorem withLines_append (line : Int) (first second : List Segment) :
    withLines line (first ++ second) =
      withLines line first ++ withLines (line + (first.flatMap text).count '\n') second := by
  induction first generalizing line with
  | nil => simp [withLines]
  | cons segment first ih =>
    rw [List.cons_append, withLines, ih, withLines, List.flatMap_cons, List.count_append,
      List.cons_append]
    simp only [newlines, Int.natCast_add, Int.add_assoc]

theorem withLines_add (line lines : Int) (segments : List Segment) :
    withLines (line + lines) segments =
      (withLines line segments).map (Prod.map id (· + lines)) := by
  induction segments generalizing line with
  | nil => rfl
  | cons segment segments ih =>
    rw [withLines, withLines, List.map_cons, ← ih, Int.add_right_comm]
    rfl

theorem token?_add (entry : Segment × Int) (lines : Int) :
    token? (Prod.map id (· + lines) entry) = (token? entry).map (Token.moveDown lines) := by
  obtain ⟨segment, line⟩ := entry
  cases segment <;> rfl

theorem error?_add (entry : Segment × Int) (lines : Int) :
    error? (Prod.map id (· + lines) entry) = (error? entry).map (LexicalError.moveDown lines) := by
  obtain ⟨segment, line⟩ := entry
  cases segment <;> rfl

/-- What is read off pieces further down is what is read off them, moved down. -/
theorem filterMap_withLines_add {α : Type} {read : Segment × Int → Option α}
    {moveDown : Int → α → α}
    (h : ∀ entry lines, read (Prod.map id (· + lines) entry) = (read entry).map (moveDown lines))
    (line lines : Int) (segments : List Segment) :
    (withLines (line + lines) segments).filterMap read =
      ((withLines line segments).filterMap read).map (moveDown lines) := by
  rw [withLines_add, List.filterMap_map, List.map_filterMap]
  congr 1
  funext entry
  exact h entry lines

end Lines

end Segment

section Scan

variable {source above : String}

theorem tokens_scan (source : String) : (scan source).tokens =
    (Segment.withLines 1 (Segment.ofSource source.toList)).filterMap Segment.token? ++
      [Token.endMark (1 + source.toList.count '\n')] := rfl

theorem errors_scan (source : String) : (scan source).errors =
    (Segment.withLines 1 (Segment.ofSource source.toList)).filterMap Segment.error? := rfl

/-- A source without an error of that kind has no open string. -/
theorem not_mem_unterminated (h : ∀ error ∈ (scan source).errors, error.fault ≠ .unterminatedString)
    (text : List Char) : .unterminated text ∉ Segment.ofSource source.toList := by
  intro hmem
  rw [← Segment.fst_withLines 1 (Segment.ofSource source.toList)] at hmem
  obtain ⟨⟨segment, line⟩, hentry, rfl⟩ := List.mem_map.mp hmem
  exact h ⟨.unterminatedString, line⟩ (List.mem_filterMap.mpr ⟨_, hentry, rfl⟩) rfl

/-- The pieces of both texts, and the newline between them, with their lines. -/
theorem withLines_append_newline
    (h : ∀ error ∈ (scan above).errors, error.fault ≠ .unterminatedString) (below : String) :
    ∃ line, Segment.withLines 1 (Segment.ofSource (above ++ "\n" ++ below).toList) =
      Segment.withLines 1 (Segment.ofSource above.toList) ++ (.newline, line) ::
        Segment.withLines (1 + (1 + above.toList.count '\n')) (Segment.ofSource below.toList) := by
  have hsource : (above ++ "\n" ++ below).toList = above.toList ++ '\n' :: below.toList := by simp
  have hone : Segment.newlines .newline = 1 := rfl
  have hline : 1 + (above.toList.count '\n' : Int) + (Segment.newlines .newline : Int) =
      1 + (1 + above.toList.count '\n') := by
    rw [hone]
    omega
  rw [hsource, Segment.ofSource_append_newline (not_mem_unterminated h), Segment.withLines_append,
    Segment.text_ofSource, Segment.withLines, hline]
  exact ⟨_, rfl⟩

theorem endMark_append_newline (above below : String) :
    Token.endMark (1 + (above ++ "\n" ++ below).toList.count '\n') =
      (Token.endMark (1 + below.toList.count '\n')).moveDown (1 + above.toList.count '\n') := by
  have hcount : (above ++ "\n" ++ below).toList.count '\n' =
      above.toList.count '\n' + (below.toList.count '\n' + 1) := by simp
  unfold Token.moveDown Token.endMark
  rw [hcount]
  simp only [Token.mk.injEq, true_and]
  omega

end Scan

/-- A text in which no string is left open can be scanned apart from what follows on the next line:
all its tokens but the end mark come first, then those of what follows, and so do the errors. The
second part is further down by the lines of the first. -/
theorem scan_append_line (above below : String)
    (h : ∀ error ∈ (scan above).errors, error.fault ≠ .unterminatedString) :
    ∃ tokens mark, (scan above).tokens = tokens ++ [mark] ∧ mark.kind = .eof ∧
      (scan (above ++ "\n" ++ below)).tokens =
        tokens ++ (scan below).tokens.map (Token.moveDown (1 + above.toList.count '\n')) ∧
      (scan (above ++ "\n" ++ below)).errors =
        (scan above).errors ++
          (scan below).errors.map (LexicalError.moveDown (1 + above.toList.count '\n')) := by
  obtain ⟨line, hpieces⟩ := withLines_append_newline h below
  refine ⟨_, _, tokens_scan above, rfl, ?_, ?_⟩
  · rw [tokens_scan, tokens_scan, hpieces, endMark_append_newline, List.filterMap_append,
      List.filterMap_cons_none rfl, Segment.filterMap_withLines_add Segment.token?_add,
      List.map_append, List.append_assoc]
    rfl
  · rw [errors_scan, errors_scan, errors_scan, hpieces, List.filterMap_append,
      List.filterMap_cons_none rfl, Segment.filterMap_withLines_add Segment.error?_add]

def pointAtEnd : String := "£\n1."

def digitAndOpenString : String := "5 \"b\n"

theorem scan_pointAtEnd : (∀ error ∈ (scan pointAtEnd).errors, error.fault ≠ .unterminatedString) ∧
    (scan (pointAtEnd ++ "\n" ++ digitAndOpenString)).tokens.map
        (fun token => (token.lexeme, token.line)) = [("1", 2), (".", 2), ("5", 3), ("", 4)] ∧
    (scan (pointAtEnd ++ "\n" ++ digitAndOpenString)).errors =
      [⟨.unexpectedCharacter '£', 1⟩, ⟨.unterminatedString, 4⟩] := by
  have habove : Segment.ofSource pointAtEnd.toList =
      [.unexpected '£', .newline,
       .token .number (.number (Double.ofDecimal false ['1'] [])) ['1'],
       .token .dot .null ['.']] := by
    have hlist : pointAtEnd.toList = ['£', '\n', '1', '.'] := by decide
    rw [hlist]
    iterate 4 apply Segment.ofSource_of_cut rfl
    exact Segment.ofSource_nil
  have hbelow : Segment.ofSource digitAndOpenString.toList =
      [.token .number (.number (Double.ofDecimal false ['5'] [])) ['5'], .blank ' ',
       .unterminated ['"', 'b', '\n']] := by
    have hlist : digitAndOpenString.toList = ['5', ' ', '"', 'b', '\n'] := by decide
    rw [hlist]
    iterate 3 apply Segment.ofSource_of_cut rfl
    exact Segment.ofSource_nil
  have herrors : (scan pointAtEnd).errors = [⟨.unexpectedCharacter '£', 1⟩] := by
    rw [errors_scan, habove]
    rfl
  have hclosed : ∀ error ∈ (scan pointAtEnd).errors, error.fault ≠ .unterminatedString := by
    rw [herrors]
    decide
  obtain ⟨tokens, mark, habove', -, htokens, herrors'⟩ :=
    scan_append_line pointAtEnd digitAndOpenString hclosed
  rw [tokens_scan, habove] at habove'
  rw [tokens_scan digitAndOpenString, hbelow, ← (List.append_singleton_inj.mp habove').1] at htokens
  rw [errors_scan digitAndOpenString, hbelow, herrors] at herrors'
  refine ⟨hclosed, ?_, ?_⟩
  · rw [htokens]
    decide
  · rw [herrors']
    decide

end ScriptLang
