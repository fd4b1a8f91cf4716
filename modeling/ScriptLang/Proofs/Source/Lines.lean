import ScriptLang.Proofs.Source.Places

namespace ScriptLang

def lineAt (source : String) (offset : Nat) : Int := 1 + (source.toList.take offset).count '\n'

abbrev Found := Token ⊕ LexicalError

namespace Found

def line : Found → Int
  | .inl token => token.line
  | .inr error => error.line

end Found

namespace Segment

def found? (entry : Segment × Int) : Option Found :=
  ((token? entry).map Sum.inl).or ((error? entry).map Sum.inr)

def isFound : Segment → Bool
  | .token .. | .unexpected _ | .unterminated _ => true
  | .blank _ | .newline | .comment _ => false

end Segment

def found (source : String) : List Found :=
  (Segment.withLines 1 (Segment.ofSource source.toList)).filterMap Segment.found? ++
    [.inl (Token.endMark (lineAt source source.length))]

/-- What is sent out under this number, from zero on, is the piece from `first` up to `past`. -/
structure SentOut (source : String) (number : Nat) (piece : Segment) (first past : Nat) :
    Prop where
  text : source.toList.extract first past = piece.text
  cut : ∃ earlier later, Segment.ofSource source.toList = earlier ++ piece :: later ∧
    (earlier.flatMap Segment.text).length = first ∧ first + piece.text.length = past ∧
    earlier.countP Segment.isFound = number

section Lines

variable {source : String} {number : Nat}

theorem tokens_found (source : String) :
    (found source).filterMap Sum.getLeft? = (scan source).tokens := by
  have hread : (fun entry => (Segment.found? entry).bind Sum.getLeft?) = Segment.token? := by
    funext ⟨segment, line⟩
    cases segment <;> rfl
  rw [found, List.filterMap_append, List.filterMap_filterMap, hread, tokens_scan, lineAt,
    ← String.length_toList, List.take_length]
  rfl

theorem errors_found (source : String) :
    (found source).filterMap Sum.getRight? = (scan source).errors := by
  have hread : (fun entry => (Segment.found? entry).bind Sum.getRight?) = Segment.error? := by
    funext ⟨segment, line⟩
    cases segment <;> rfl
  rw [found, List.filterMap_append, List.filterMap_filterMap, hread, errors_scan]
  exact List.append_nil _

/-- The number of what is sent out of pieces is that of the pieces of such a kind. -/
theorem length_found (line : Int) (segments : List Segment) :
    ((Segment.withLines line segments).filterMap Segment.found?).length =
      segments.countP Segment.isFound := by
  have hkind (entry : Segment × Int) :
      (Segment.found? entry).isSome = entry.1.isFound := by
    obtain ⟨segment, line⟩ := entry
    cases segment <;> rfl
  have hcount : segments.countP Segment.isFound =
      (Segment.withLines line segments).countP (Segment.isFound ∘ Prod.fst) := by
    rw [← List.countP_map, Segment.fst_withLines]
  rw [List.length_filterMap_eq_countP, hcount]
  exact congrArg (List.countP · _) (funext hkind)

/-- What is sent out before the end mark is a piece of the source, on the line where this ends. -/
theorem sentOut_of_getElem? {sent : Found} (h : (found source)[number]? = some sent)
    (hend : sent ≠ .inl (Token.endMark (lineAt source source.length))) :
    ∃ piece first past, SentOut source number piece first past ∧
      Segment.found? (piece, lineAt source past) = some sent := by
  rw [found, List.getElem?_append] at h
  split at h
  case isFalse => exact absurd (List.mem_singleton.mp (List.mem_of_getElem? h)) hend
  case isTrue =>
    obtain ⟨earlier, piece, later, hpieces, hnumber, hpiece⟩ := Segment.getElem?_withLines h
    have hjoined := Segment.text_ofSource source.toList
    rw [hpieces, List.flatMap_append, List.flatMap_cons] at hjoined
    rw [length_found] at hnumber
    refine ⟨piece, _, _, ⟨?_, earlier, later, hpieces, rfl, rfl, hnumber⟩, ?_⟩
    · rw [← hjoined]
      simp
    · have hbefore : source.toList.take
          ((earlier.flatMap Segment.text).length + piece.text.length) =
            earlier.flatMap Segment.text ++ piece.text := by
        rw [← hjoined, ← List.append_assoc, ← List.length_append, List.take_left]
      rw [lineAt, hbefore, List.count_append]
      exact hpiece

theorem lineAt_le (source : String) {first past : Nat} (h : first ≤ past) :
    lineAt source first ≤ lineAt source past := by
  have hle := (List.take_prefix_take_left (l := source.toList) h).sublist.count_le '\n'
  unfold lineAt
  omega

/-- Pieces end on the line where they are to begin, or further down, and so one after the other. -/
theorem pairwise_withLines (line : Int) (segments : List Segment) :
    (∀ entry ∈ Segment.withLines line segments, line ≤ entry.2) ∧
      (Segment.withLines line segments).Pairwise fun entry later => entry.2 ≤ later.2 := by
  induction segments generalizing line with
  | nil => exact ⟨List.forall_mem_nil _, List.Pairwise.nil⟩
  | cons segment segments ih =>
    obtain ⟨hle, hpairwise⟩ := ih (line + segment.newlines)
    rw [Segment.withLines]
    refine ⟨?_, List.pairwise_cons.mpr ⟨hle, hpairwise⟩⟩
    intro entry hmem
    obtain rfl | hmem := List.mem_cons.mp hmem
    · exact Int.le_add_of_nonneg_right (Int.natCast_nonneg _)
    · exact Int.le_trans (Int.le_add_of_nonneg_right (Int.natCast_nonneg _)) (hle entry hmem)

theorem line_found {entry : Segment × Int} {sent : Found} (h : Segment.found? entry = some sent) :
    sent.line = entry.2 := by
  obtain ⟨segment, line⟩ := entry
  cases segment <;> cases h <;> rfl

theorem SentOut.joined {piece : Segment} {first past : Nat}
    (h : SentOut source number piece first past) : ∃ before after,
      source.toList = before ++ (piece.text ++ after) ∧ before.length = first ∧
        first + piece.text.length = past := by
  obtain ⟨earlier, later, hpieces, hfirst, hpast, -⟩ := h.cut
  refine ⟨earlier.flatMap Segment.text, later.flatMap Segment.text, ?_, hfirst, hpast⟩
  rw [← Segment.text_ofSource source.toList, hpieces, List.flatMap_append, List.flatMap_cons]

theorem SentOut.past_le {piece : Segment} {first past : Nat}
    (h : SentOut source number piece first past) : past ≤ source.length := by
  obtain ⟨before, after, hjoined, rfl, rfl⟩ := h.joined
  rw [← String.length_toList, hjoined, List.length_append, List.length_append]
  omega

/-- Nothing is sent out on a line above that of what was sent out before. -/
theorem pairwise_found (source : String) :
    (found source).Pairwise fun sent later => sent.line ≤ later.line := by
  have hpieces := (pairwise_withLines 1 (Segment.ofSource source.toList)).2
  rw [found, List.pairwise_append]
  refine ⟨?_, List.pairwise_singleton _ _, ?_⟩
  · rw [List.pairwise_filterMap]
    refine hpieces.imp fun hle sent hsent later hlater => ?_
    rw [line_found hsent, line_found hlater]
    exact hle
  · -- the end mark is on the last line, which no piece is past
    intro sent hmem mark hmark
    rw [List.mem_singleton.mp hmark]
    obtain ⟨number, hnumber⟩ := List.getElem?_of_mem (List.mem_append_left
      [.inl (Token.endMark (lineAt source source.length))] hmem)
    by_cases hend : sent = .inl (Token.endMark (lineAt source source.length))
    · exact Int.le_of_eq (congrArg Found.line hend)
    · obtain ⟨piece, first, past, hsent, hfound⟩ := sentOut_of_getElem? hnumber hend
      rw [line_found hfound]
      exact lineAt_le source hsent.past_le

theorem lineAt_length (source : String) :
    lineAt source source.length = 1 + source.toList.count '\n' := by
  rw [lineAt, ← String.length_toList, List.take_length]

theorem SentOut.stands {piece : Segment} {first past : Nat}
    (h : SentOut source number piece first past) : ∃ rest, piece.Stands rest := by
  obtain ⟨earlier, later, hpieces, -⟩ := h.cut
  exact ⟨_, Segment.stands_of_split hpieces⟩

/-- A character that is not expected does not end a line. -/
theorem SentOut.lineAt_unexpected {c : Char} {first past : Nat}
    (h : SentOut source number (.unexpected c) first past) :
    past = first + 1 ∧ lineAt source past = lineAt source first := by
  obtain ⟨rest, hstands⟩ := h.stands
  have hnewline : c ≠ '\n' := by
    rintro rfl
    cases hstands with
    | unexpected _ h => exact h _ Segment.Formed.newline rfl
  obtain ⟨before, after, hjoined, rfl, rfl⟩ := h.joined
  refine ⟨rfl, ?_⟩
  unfold lineAt
  rw [hjoined, List.take_left, ← List.append_assoc, ← List.length_append, List.take_left,
    List.count_append]
  simp [Segment.text, hnewline]

/-- A string without an end goes as far as the source. -/
theorem SentOut.past_unterminated {text : List Char} {first past : Nat}
    (h : SentOut source number (.unterminated text) first past) : past = source.length := by
  obtain ⟨earlier, later, hpieces, rfl, rfl, -⟩ := h.cut
  have hjoined := Segment.text_ofSource source.toList
  obtain rfl := Segment.unterminated_last hpieces
  rw [hpieces, List.flatMap_append, List.flatMap_singleton] at hjoined
  rw [← String.length_toList, ← hjoined, List.length_append]

theorem SentOut.kind_ne_eof {kind : TokenKind} {literal : Literal} {text : List Char}
    {first past : Nat} (h : SentOut source number (.token kind literal text) first past) :
    kind ≠ .eof := by
  obtain ⟨rest, hstands⟩ := h.stands
  cases hstands with
  | token h => exact h.kind_ne_eof

/-- A token is on the line where its text ends, a character that is not expected on its own line,
and a string without an end on the last line, like the end mark. So in the order in which tokens and
errors are sent out, none is on a line above that of an earlier one. -/
theorem scan_lines (source : String) :
    ((found source).filterMap Sum.getLeft? = (scan source).tokens ∧
      (found source).filterMap Sum.getRight? = (scan source).errors) ∧
    (∀ (number : Nat) token, (found source)[number]? = some (.inl token) → token.kind ≠ .eof →
      ∃ first past,
        SentOut source number (.token token.kind token.literal token.lexeme.toList) first past ∧
        token.line = lineAt source past) ∧
    (∀ (number : Nat) token, (found source)[number]? = some (.inl token) → token.kind = .eof →
      token.line = 1 + source.toList.count '\n') ∧
    (∀ (number : Nat) c line, (found source)[number]? = some (.inr ⟨.unexpectedCharacter c, line⟩) →
      ∃ first, SentOut source number (.unexpected c) first (first + 1) ∧
        line = lineAt source first) ∧
    (∀ (number : Nat) line, (found source)[number]? = some (.inr ⟨.unterminatedString, line⟩) →
      (∃ text first, SentOut source number (.unterminated text) first source.length) ∧
        line = 1 + source.toList.count '\n') ∧
    (found source).Pairwise (fun sent later => sent.line ≤ later.line) ∧
    (scan source).tokens.Pairwise (fun token later => token.line ≤ later.line) ∧
    (scan source).errors.Pairwise (fun error later => error.line ≤ later.line) := by
  have hpairwise := pairwise_found source
  refine ⟨⟨tokens_found source, errors_found source⟩, ?_, ?_, ?_, ?_, hpairwise, ?_, ?_⟩
  · intro number token h hkind
    obtain ⟨piece, first, past, hsent, hfound⟩ :=
      sentOut_of_getElem? h fun hend => hkind (congrArg Token.kind (Sum.inl.inj hend))
    refine ⟨first, past, ?_⟩
    cases piece with
    | token kind literal text =>
      cases hfound
      rw [String.toList_ofList]
      exact ⟨hsent, rfl⟩
    | _ => cases hfound
  · intro number token h hkind
    rw [← lineAt_length]
    -- the only other token of this kind would be one that is cut off the source, and none is
    by_cases hend : (.inl token : Found) = .inl (Token.endMark (lineAt source source.length))
    · exact congrArg Token.line (Sum.inl.inj hend)
    · obtain ⟨piece, first, past, hsent, hfound⟩ := sentOut_of_getElem? h hend
      cases piece with
      | token kind literal text =>
        cases hfound
        exact absurd hkind hsent.kind_ne_eof
      | _ => cases hfound
  · intro number c line h
    obtain ⟨piece, first, past, hsent, hfound⟩ := sentOut_of_getElem? h nofun
    cases piece with
    | unexpected char =>
      cases hfound
      obtain ⟨rfl, hline⟩ := hsent.lineAt_unexpected
      exact ⟨first, hsent, hline⟩
    | _ => cases hfound
  · intro number line h
    obtain ⟨piece, first, past, hsent, hfound⟩ := sentOut_of_getElem? h nofun
    cases piece with
    | unterminated text =>
      cases hfound
      obtain rfl := hsent.past_unterminated
      exact ⟨⟨text, first, hsent⟩, lineAt_length source⟩
    | _ => cases hfound
  · rw [← tokens_found, List.pairwise_filterMap]
    refine hpairwise.imp fun {sent later} hle token htoken token' htoken' => ?_
    rw [Sum.getLeft?_eq_some_iff] at htoken htoken'
    rw [htoken, htoken'] at hle
    exact hle
  · rw [← errors_found, List.pairwise_filterMap]
    refine hpairwise.imp fun {sent later} hle error herror error' herror' => ?_
    rw [Sum.getRight?_eq_some_iff] at herror herror'
    rw [herror, herror'] at hle
    exact hle

def openLines : String := "\"a\nb\"@\n\"c\n"

theorem ofSource_openLines : Segment.ofSource openLines.toList =
    [.token .string (.string (String.ofList ['a', '\n', 'b'])) ['"', 'a', '\n', 'b', '"'],
      .unexpected '@', .newline, .unterminated ['"', 'c', '\n']] := by
  have hlist : openLines.toList = ['"', 'a', '\n', 'b', '"', '@', '\n', '"', 'c', '\n'] := by
    decide
  rw [hlist]
  iterate 4 apply Segment.ofSource_of_cut rfl
  exact Segment.ofSource_nil

/-- The string ends on the second line, which the character is on, and all is open to the fourth. -/
theorem scan_openLines :
    (∃ line, (found openLines)[0]? =
        some (.inl ⟨.string, "\"a\nb\"", .string "a\nb", line⟩) ∧
      (∃ first past, SentOut openLines 0
        (.token .string (.string "a\nb") ['"', 'a', '\n', 'b', '"']) first past ∧
          line = lineAt openLines past) ∧ line = 2) ∧
    (∃ line, (found openLines)[1]? = some (.inr ⟨.unexpectedCharacter '@', line⟩) ∧
      (∃ first, SentOut openLines 1 (.unexpected '@') first (first + 1) ∧
        line = lineAt openLines first) ∧ line = 2) ∧
    (∃ line : Int, (found openLines)[2]? = some (.inr ⟨.unterminatedString, line⟩) ∧
      line = 1 + openLines.toList.count '\n') ∧
    (∃ mark : Token, (found openLines)[3]? = some (.inl mark) ∧ mark.kind = .eof ∧
      mark.line = 1 + openLines.toList.count '\n') ∧
    openLines.toList.count '\n' = 3 := by
  have hlist : openLines.toList.count '\n' = 3 := by decide
  have hfound : found openLines =
      [.inl ⟨.string, "\"a\nb\"", .string "a\nb", 2⟩, .inr ⟨.unexpectedCharacter '@', 2⟩,
        .inr ⟨.unterminatedString, 4⟩, .inl (Token.endMark 4)] := by
    rw [found, ofSource_openLines, lineAt_length, hlist]
    rfl
  obtain ⟨-, htoken, hmark, hunexpected, hopen, -⟩ := scan_lines openLines
  rw [hfound] at htoken hmark hunexpected hopen ⊢
  exact ⟨⟨2, rfl, htoken 0 _ rfl (by decide), rfl⟩, ⟨2, rfl, hunexpected 1 '@' 2 rfl, rfl⟩,
    ⟨4, rfl, (hopen 2 4 rfl).2⟩, ⟨_, rfl, rfl, hmark 3 _ rfl rfl⟩, hlist⟩

end Lines

end ScriptLang
