import ScriptLang.Proofs.Source.Layout

namespace ScriptLang

/-- The token of this number, from zero on, is what stands between two stretches of a source. -/
structure StandsBetween (source : String) (number : Nat) (before text after : List Char) :
    Prop where
  joined : source.toList = before ++ (text ++ after)
  cut : ∃ earlier kind literal later,
    Segment.ofSource source.toList = earlier ++ .token kind literal text :: later ∧
      earlier.flatMap Segment.text = before ∧ (earlier.filterMap Segment.lexeme?).length = number

section Places

variable {segments : List Segment} {line : Int} {number : Nat} {token : Token}

/-- What is read off pieces with their lines is read off one of them, which is on the line where its
text ends. -/
theorem Segment.getElem?_withLines {α : Type} {read : Segment × Int → Option α} {x : α}
    (h : ((withLines line segments).filterMap read)[number]? = some x) :
    ∃ earlier piece later, segments = earlier ++ piece :: later ∧
      ((withLines line earlier).filterMap read).length = number ∧
      read (piece, line + ((earlier.flatMap text).count '\n' + piece.newlines : Nat)) = some x := by
  induction segments generalizing line number with
  | nil => cases h
  | cons segment segments ih =>
    have hline (earlier : List Segment) (piece : Segment) :
        line + (((segment :: earlier).flatMap text).count '\n' + piece.newlines : Nat) =
          line + segment.newlines + ((earlier.flatMap text).count '\n' + piece.newlines : Nat) := by
      rw [List.flatMap_cons, List.count_append]
      change _ + ((segment.newlines + _ + _ : Nat) : Int) = _
      omega
    rw [withLines] at h
    cases hread : read (segment, line + segment.newlines) with
    | none =>
      rw [List.filterMap_cons_none hread] at h
      obtain ⟨earlier, piece, later, rfl, hnumber, hx⟩ := ih h
      refine ⟨segment :: earlier, piece, later, rfl, ?_, ?_⟩
      · rw [withLines, List.filterMap_cons_none hread, hnumber]
      · rw [hline, hx]
    | some found =>
      rw [List.filterMap_cons_some hread] at h
      cases number with
      | zero =>
        refine ⟨[], segment, segments, rfl, rfl, ?_⟩
        rw [List.flatMap_nil, List.count_nil, Nat.zero_add, hread]
        exact h
      | succ number =>
        obtain ⟨earlier, piece, later, rfl, hnumber, hx⟩ := ih h
        refine ⟨segment :: earlier, piece, later, rfl, ?_, ?_⟩
        · rw [withLines, List.filterMap_cons_some hread, List.length_cons, hnumber]
        · rw [hline, hx]

/-- A token is one of the pieces, behind the pieces of the tokens before it. -/
theorem Segment.getElem?_tokens
    (h : ((withLines line segments).filterMap token?)[number]? = some token) :
    ∃ earlier later,
      segments = earlier ++ .token token.kind token.literal token.lexeme.toList :: later ∧
      (earlier.filterMap lexeme?).length = number ∧ token.line = line +
        ((earlier.flatMap text).count '\n' + token.lexeme.toList.count '\n' : Nat) := by
  obtain ⟨earlier, piece, later, rfl, hnumber, hpiece⟩ := getElem?_withLines h
  refine ⟨earlier, later, ?_⟩
  cases piece with
  | token kind literal text =>
    cases hpiece
    rw [String.toList_ofList]
    refine ⟨rfl, ?_, rfl⟩
    rw [← filterMap_withLines view_token line earlier, List.length_map, hnumber]
  | _ => cases hpiece

/-- The line of a token is that on which its text ends. -/
theorem scan_places {source : String} (h : (scan source).tokens[number]? = some token)
    (hkind : token.kind ≠ .eof) : ∃ before after,
      StandsBetween source number before token.lexeme.toList after ∧
      token.line = 1 + (before.count '\n' + token.lexeme.toList.count '\n' : Nat) := by
  rw [tokens_scan, List.getElem?_append] at h
  split at h
  · obtain ⟨earlier, later, hpieces, hnumber, hline⟩ := Segment.getElem?_tokens h
    refine ⟨earlier.flatMap Segment.text, later.flatMap Segment.text,
      ⟨?_, earlier, token.kind, token.literal, later, hpieces, rfl, hnumber⟩, hline⟩
    have hjoined := Segment.text_ofSource source.toList
    rw [hpieces, List.flatMap_append, List.flatMap_cons] at hjoined
    exact hjoined.symm
  · obtain rfl : token = Token.endMark (1 + source.toList.count '\n') := by
      simpa using List.mem_of_getElem? h
    exact absurd rfl hkind

/-- Only a string has a newline in its text. -/
theorem Lexeme.newline_not_mem {kind : TokenKind} {literal : Literal} {text : List Char}
    (h : Lexeme kind literal text) (hkind : kind ≠ .string) : '\n' ∉ text := by
  have hdigit : ¬ Digit '\n' := by unfold Digit; decide
  have hletter : ¬ Letter '\n' := by unfold Letter; decide
  cases h with
  | mark h =>
    have hall : ∀ entry ∈ marks, '\n' ∉ entry.1 := by decide
    exact hall _ h
  | whole hne h => exact fun hmem => hdigit (h _ hmem)
  | decimal _ _ h =>
    intro hmem
    obtain hmem | hmem := List.mem_append.mp hmem
    · exact hdigit (h _ (List.mem_append_left _ hmem))
    · obtain hpoint | hmem := List.mem_cons.mp hmem
      · cases hpoint
      · exact hdigit (h _ (List.mem_append_right _ hmem))
  | reserved h =>
    have hall : ∀ entry ∈ words, '\n' ∉ entry.1 := by decide
    exact hall _ h
  | name hc hrest h =>
    intro hmem
    obtain rfl | hmem := List.mem_cons.mp hmem
    · exact hletter hc
    · exact (hrest _ hmem).elim hletter hdigit
  | string h => exact absurd rfl hkind

end Places

end ScriptLang
