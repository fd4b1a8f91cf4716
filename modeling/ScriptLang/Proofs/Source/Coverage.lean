import ScriptLang.Proofs.Source.MaximalMunch

namespace ScriptLang

namespace Segment

section Place

/-- A piece of a source in its place: what it is, and what may come behind it. -/
inductive Stands : Segment → List Char → Prop where
  | token {kind : TokenKind} {literal : Literal} {text rest : List Char}
      (h : Lexeme kind literal text) : Stands (.token kind literal text) rest
  | blank {c : Char} {rest : List Char} (h : c ∈ [' ', '\t', '\r']) : Stands (.blank c) rest
  | newline {rest : List Char} : Stands .newline rest
  | comment {body rest : List Char} (h : '\n' ∉ body) (hrest : rest = [] ∨ rest.head? = some '\n') :
      Stands (.comment ('/' :: '/' :: body)) rest
  | unexpected {c : Char} {rest : List Char} (hquote : c ≠ '"')
      (h : ∀ segment : Segment, segment.Formed → segment.text.head? ≠ some c) :
      Stands (.unexpected c) rest
  | unterminated {body : List Char} (h : '"' ∉ body) : Stands (.unterminated ('"' :: body)) []

variable {segment other : Segment} {c : Char} {more rest : List Char}

/-- A comment that could go on would not be the longest. -/
theorem Longest.stands (h : segment.Longest (segment.text ++ rest)) : segment.Stands rest := by
  obtain ⟨hformed, -, hlongest⟩ := h
  cases hformed with
  | token hlexeme => exact Stands.token hlexeme
  | blank hblank => exact Stands.blank hblank
  | newline => exact Stands.newline
  | @comment body hbody =>
    apply Stands.comment hbody
    cases rest with
    | nil => exact Or.inl rfl
    | cons d rest =>
      right
      by_cases hd : d = '\n'
      · rw [hd]
        rfl
      -- with one more character of its line the comment would be longer
      · have hformed : (Segment.comment ('/' :: '/' :: (body ++ [d]))).Formed := by
          apply Formed.comment
          intro hmem
          obtain hmem | hmem := List.mem_append.mp hmem
          · exact hbody hmem
          · exact hd (List.mem_singleton.mp hmem).symm
        have hle := hlongest _ hformed ⟨rest, by simp [text]⟩
        simp only [text, List.length_cons, List.length_append, List.length_nil] at hle
        omega

theorem stands_cut (c : Char) (rest : List Char) : (cut c rest).1.Stands (cut c rest).2 := by
  obtain hformed | ⟨hspecial, hdigit, hletter, hcut⟩ | ⟨rfl, hopen, hcut⟩ := cut_cases c rest
  · apply Longest.stands
    rw [text_cut]
    exact longest_cut c rest hformed
  · rw [hcut]
    apply Stands.unexpected
    · intro hquote
      rw [hquote] at hspecial
      exact hspecial (by decide)
    · intro other hother hhead
      obtain ⟨more, htext⟩ := List.head?_eq_some_iff.mp hhead
      obtain h | h | h := hother.begins htext
      · exact hspecial h
      · exact hdigit h
      · exact hletter h
  · rw [hcut]
    exact Stands.unterminated hopen

/-- A piece in its place is what is cut off its own text. -/
theorem Stands.cut_eq (h : segment.Stands rest) (htext : segment.text = c :: more) :
    (cut c more).1 = segment := by
  cases h with
  | token h => exact (Formed.token h).cut_eq htext
  | blank h => exact (Formed.blank h).cut_eq htext
  | newline => exact Formed.newline.cut_eq htext
  | comment h hrest => exact (Formed.comment h).cut_eq htext
  | unexpected hquote h =>
    cases htext
    -- Something well-formed cut off this character alone would begin with it.
    obtain hformed | ⟨-, -, -, hcut⟩ | ⟨rfl, -, -⟩ := cut_cases c []
    · have hjoined := text_cut c []
      obtain ⟨first, tail, hcons⟩ := List.exists_cons_of_ne_nil hformed.text_ne_nil
      rw [hcons] at hjoined
      obtain ⟨rfl, -⟩ := List.cons.inj hjoined
      exact absurd (congrArg List.head? hcons) (h _ hformed)
    · rw [hcut]
    · exact absurd rfl hquote
  | unterminated h =>
    cases htext
    obtain ⟨-, hmem⟩ | ⟨-, hquoted⟩ := quoted_cases more
    · exact absurd hmem h
    · exact congrArg Prod.fst hquoted

theorem Stands.text_ne_nil (h : segment.Stands rest) : segment.text ≠ [] := by
  cases h with
  | token h => exact (Formed.token h).text_ne_nil
  | blank h => exact List.cons_ne_nil _ _
  | newline => exact List.cons_ne_nil _ _
  | comment h hrest => exact List.cons_ne_nil _ _
  | unexpected hquote h => exact List.cons_ne_nil _ _
  | unterminated h => exact List.cons_ne_nil _ _

/-- No text is two kinds of piece. -/
theorem Stands.eq_of_text (h : segment.Stands rest) (h' : other.Stands rest)
    (htext : other.text = segment.text) : other = segment := by
  obtain ⟨c, more, hcons⟩ := List.exists_cons_of_ne_nil h.text_ne_nil
  rw [← h.cut_eq hcons, ← h'.cut_eq (htext.trans hcons)]

end Place

section Munch

/-- How a piece is cut off what is ahead: the longest well-formed one where there is any, else an
open string from a quote on, else one unexpected character. -/
def Munched (segment : Segment) (ahead : List Char) : Prop :=
  match segment with
  | .unexpected c => c ≠ '"' ∧ ∀ other : Segment, other.Formed → ¬ other.text <+: ahead
  | .unterminated _ =>
    ahead.head? = some '"' ∧ ∀ other : Segment, other.Formed → ¬ other.text <+: ahead
  | segment => segment.Longest ahead

variable {c : Char} {rest : List Char}

theorem none_formed (h : ¬ (cut c rest).1.Formed) (other : Segment) (hother : other.Formed) :
    ¬ other.text <+: c :: rest :=
  fun hheads => h (hother.cut_of_heads hheads).1

theorem munched_cut (c : Char) (rest : List Char) : (cut c rest).1.Munched (c :: rest) := by
  obtain hformed | ⟨hspecial, -, -, hcut⟩ | ⟨rfl, -, hcut⟩ := cut_cases c rest
  · have hlongest := longest_cut c rest hformed
    generalize (cut c rest).1 = segment at hformed hlongest
    cases hformed <;> exact hlongest
  · have hnot : ¬ (cut c rest).1.Formed := by
      rw [hcut]
      intro hformed
      cases hformed
    rw [hcut]
    refine ⟨?_, none_formed hnot⟩
    intro hquote
    rw [hquote] at hspecial
    exact hspecial (by decide)
  · have hnot : ¬ (cut '"' rest).1.Formed := by
      rw [hcut]
      intro hformed
      cases hformed
    rw [hcut]
    exact ⟨rfl, none_formed hnot⟩

end Munch

section Pieces

theorem ofSource_nil : ofSource [] = [] := by rw [ofSource]

theorem ofSource_of_cut {c : Char} {rest after : List Char} {segment : Segment}
    {segments : List Segment} (h : cut c rest = (segment, after))
    (hafter : ofSource after = segments) : ofSource (c :: rest) = segment :: segments := by
  rw [ofSource, h, hafter]

theorem text_ofSource (source : List Char) : (ofSource source).flatMap text = source := by
  fun_induction ofSource source with
  | case1 => rfl
  | case2 c rest ih => rw [List.flatMap_cons, ih, text_cut]

variable {source : List Char} {before after : List Segment} {segment : Segment}

/-- Every piece of a source is cut off what is left of the source where the piece begins. -/
theorem ofSource_split (h : ofSource source = before ++ segment :: after) :
    ∃ c rest, source = before.flatMap text ++ c :: rest ∧ segment = (cut c rest).1 ∧
      after = ofSource (cut c rest).2 := by
  fun_induction ofSource source generalizing before with
  | case1 => exact absurd h.symm (List.append_ne_nil_of_right_ne_nil _ (List.cons_ne_nil _ _))
  | case2 c rest ih =>
    cases before with
    | nil =>
      obtain ⟨hsegment, hafter⟩ := List.cons.inj h
      exact ⟨c, rest, rfl, hsegment.symm, hafter.symm⟩
    | cons first before =>
      obtain ⟨hfirst, htail⟩ := List.cons.inj h
      obtain ⟨c', rest', hsource, hsegment, hafter⟩ := ih htail
      refine ⟨c', rest', ?_, hsegment, hafter⟩
      rw [List.flatMap_cons, List.append_assoc, ← hsource, ← hfirst, text_cut]

theorem stands_of_split (h : ofSource source = before ++ segment :: after) :
    segment.Stands (after.flatMap text) := by
  obtain ⟨c, rest, -, rfl, rfl⟩ := ofSource_split h
  rw [text_ofSource]
  exact stands_cut c rest

/-- A string without an end takes all that is left. -/
theorem unterminated_last {text : List Char}
    (h : ofSource source = before ++ .unterminated text :: after) : after = [] := by
  obtain ⟨c, rest, -, hcut, rfl⟩ := ofSource_split h
  have hstands := stands_cut c rest
  rw [← hcut] at hstands
  generalize (cut c rest).2 = left at hstands
  cases hstands with
  | unterminated hopen => rw [ofSource]

end Pieces

section Views

/-- The kind, the literal and the text of a piece that is a token. -/
def lexeme? : Segment → Option (TokenKind × Literal × List Char)
  | .token kind literal text => some (kind, literal, text)
  | _ => none

/-- What is reported of a piece that is no token and cannot be skipped. -/
def complaint? : Segment → Option (Code × List (String × Detail))
  | .unexpected char => some (.unexpectedCharacter, [("char", .text (String.ofList [char]))])
  | .unterminated _ => some (.unterminatedString, [])
  | _ => none

theorem fst_withLines (line : Int) (segments : List Segment) :
    (withLines line segments).map Prod.fst = segments := by
  induction segments generalizing line with
  | nil => rfl
  | cons segment segments ih =>
    rw [withLines, List.map_cons, ih]

/-- What is read off pieces with their lines is read off the pieces, up to what looks at no line. -/
theorem filterMap_withLines {α β : Type} {read : Segment × Int → Option α} {view : α → β}
    {plain : Segment → Option β}
    (h : ∀ segment line, (read (segment, line)).map view = plain segment) (line : Int)
    (segments : List Segment) :
    ((withLines line segments).filterMap read).map view = segments.filterMap plain := by
  have hread : (fun entry => (read entry).map view) = plain ∘ Prod.fst := by
    funext ⟨segment, line⟩
    exact h segment line
  rw [List.map_filterMap, hread, ← List.filterMap_map, fst_withLines]

theorem view_token (segment : Segment) (line : Int) :
    (token? (segment, line)).map (fun token => (token.kind, token.literal, token.lexeme.toList)) =
      segment.lexeme? := by
  cases segment with
  | token kind literal text =>
    change some (kind, literal, (String.ofList text).toList) = some (kind, literal, text)
    rw [String.toList_ofList]
  | _ => rfl

theorem view_error (segment : Segment) (line : Int) :
    (error? (segment, line)).map
        (fun error => (error.diagnostic.code, error.diagnostic.details)) =
      segment.complaint? := by
  cases segment <;> rfl

end Views

end Segment

section Tokens

theorem Lexeme.kind_ne_eof {kind : TokenKind} {literal : Literal} {text : List Char}
    (h : Lexeme kind literal text) : kind ≠ .eof := by
  cases h with
  | mark h =>
    have hall : ∀ entry ∈ marks, entry.2 ≠ .eof := by decide
    exact hall _ h
  | whole => decide
  | decimal => decide
  | reserved h =>
    have hall : ∀ entry ∈ words, entry.2.1 ≠ .eof := by decide
    exact hall _ h
  | name => decide
  | string => decide

/-- The text of a token determines its kind and its literal. -/
theorem Lexeme.unique {kind kind' : TokenKind} {literal literal' : Literal} {text : List Char}
    (h : Lexeme kind literal text) (h' : Lexeme kind' literal' text) :
    kind' = kind ∧ literal' = literal := by
  have heq := (Segment.Formed.token h).eq_of_text (Segment.Formed.token h') rfl
  obtain ⟨hkind, hliteral, -⟩ := Segment.token.inj heq
  exact ⟨hkind, hliteral⟩

theorem lexeme_of_mem {source : List Char} {line : Int} {token : Token}
    (h : token ∈ (Segment.withLines line (Segment.ofSource source)).filterMap Segment.token?) :
    Lexeme token.kind token.literal token.lexeme.toList := by
  have hmem := List.mem_map_of_mem
    (f := fun token : Token => (token.kind, token.literal, token.lexeme.toList)) h
  rw [Segment.filterMap_withLines Segment.view_token] at hmem
  obtain ⟨segment, hsegment, hlexeme⟩ := List.mem_filterMap.mp hmem
  obtain ⟨before, after, hsplit⟩ := List.append_of_mem hsegment
  have hstands := Segment.stands_of_split hsplit
  generalize after.flatMap Segment.text = rest at hstands
  cases hstands with
  | token h =>
    obtain ⟨hkind, hrest⟩ := Prod.mk.inj (Option.some.inj hlexeme)
    obtain ⟨hliteral, htext⟩ := Prod.mk.inj hrest
    rw [← hkind, ← hliteral, ← htext]
    exact h
  | _ => cases hlexeme

end Tokens

def mixture : String := "1.===trues//x\n£\"a"

def mixturePieces : List Segment :=
  [.token .number (.number (Double.ofDecimal false ['1'] [])) ['1'], .token .dot .null ['.'],
   .token .equalEqual .null ['=', '='], .token .equal .null ['='],
   .token .identifier .null ['t', 'r', 'u', 'e', 's'], .comment ['/', '/', 'x'], .newline,
   .unexpected '£', .unterminated ['"', 'a']]

theorem ofSource_mixture : Segment.ofSource mixture.toList = mixturePieces := by
  have hlist : mixture.toList =
      ['1', '.', '=', '=', '=', 't', 'r', 'u', 'e', 's', '/', '/', 'x', '\n', '£', '"', 'a'] := by
    decide
  rw [hlist]
  iterate 9 apply Segment.ofSource_of_cut rfl
  exact Segment.ofSource_nil

/-- A scan ends with nothing left. Its source is the concatenation of pieces, each of exactly one
kind, and an open string is the last of them. The tokens are the lexemes in order and an end mark;
the errors name the unexpected characters and the open string. -/
theorem scan_accounts_for_source (source : String) :
    (Segment.ofSource source.toList).flatMap Segment.text = source.toList ∧
    (∀ before segment after, Segment.ofSource source.toList = before ++ segment :: after →
      segment.Stands (after.flatMap Segment.text) ∧
      (∀ other : Segment, other.Stands (after.flatMap Segment.text) →
        other.text = segment.text → other = segment) ∧
      ∀ text, segment = .unterminated text → after = []) ∧
    (scan source).rest = [] ∧ (scan source).position = source.toList.length ∧
    (∃ lexemes mark, (scan source).tokens = lexemes ++ [mark] ∧
      mark.kind = .eof ∧ mark.lexeme = "" ∧ (∀ token ∈ lexemes, token.kind ≠ .eof) ∧
      lexemes.map (fun token => (token.kind, token.literal, token.lexeme.toList)) =
        (Segment.ofSource source.toList).filterMap Segment.lexeme?) ∧
    (scan source).errors.map (fun error => (error.diagnostic.code, error.diagnostic.details)) =
      (Segment.ofSource source.toList).filterMap Segment.complaint? := by
  refine ⟨Segment.text_ofSource _, ?_, rfl, Nat.zero_add _, ?_,
    Segment.filterMap_withLines Segment.view_error 1 _⟩
  · intro before segment after h
    have hstands := Segment.stands_of_split h
    refine ⟨hstands, fun other hother htext => hstands.eq_of_text hother htext, ?_⟩
    intro text heq
    rw [heq] at h
    exact Segment.unterminated_last h
  · refine ⟨_, _, rfl, rfl, rfl, ?_, Segment.filterMap_withLines Segment.view_token 1 _⟩
    intro token hmem
    exact (lexeme_of_mem hmem).kind_ne_eof

theorem scan_accounts_for_mixture :
    (Segment.comment ['/', '/', 'x']).Stands ['\n', '£', '"', 'a'] ∧
    (Segment.unexpected '£').Stands ['"', 'a'] ∧ (scan mixture).rest = [] ∧
    (∃ lexemes mark, (scan mixture).tokens = lexemes ++ [mark] ∧ mark.kind = .eof ∧
      lexemes.map (fun token => token.lexeme.toList) =
        [['1'], ['.'], ['=', '='], ['='], ['t', 'r', 'u', 'e', 's']]) ∧
    (scan mixture).errors.map (fun error => (error.diagnostic.code, error.diagnostic.details)) =
      [(.unexpectedCharacter, [("char", .text "£")]), (.unterminatedString, [])] := by
  obtain ⟨-, hpieces, hrest, -, ⟨lexemes, mark, htokens, hmark, -, -, hlexemes⟩, herrors⟩ :=
    scan_accounts_for_source mixture
  rw [ofSource_mixture] at hpieces hlexemes herrors
  refine ⟨(hpieces (mixturePieces.take 5) _ (mixturePieces.drop 6) rfl).1,
    (hpieces (mixturePieces.take 7) _ (mixturePieces.drop 8) rfl).1, hrest,
    ⟨lexemes, mark, htokens, hmark, ?_⟩, herrors⟩
  have htexts := congrArg (List.map fun lexeme => lexeme.2.2) hlexemes
  rw [List.map_map] at htexts
  exact htexts

/-- Every piece of a source but an unexpected character or an open string is the longest well-formed
one where it begins, and where those two begin there is none. The text of a token determines its
kind and its literal. -/
theorem scan_maximal_munch (source : String) :
    (∀ before segment after, Segment.ofSource source.toList = before ++ segment :: after →
      let ahead := source.toList.drop (before.flatMap Segment.text).length
      ahead = segment.text ++ after.flatMap Segment.text ∧ segment.Munched ahead) ∧
    ∀ token ∈ (scan source).tokens, token.kind ≠ .eof →
      Lexeme token.kind token.literal token.lexeme.toList ∧
      ∀ kind literal, Lexeme kind literal token.lexeme.toList →
        kind = token.kind ∧ literal = token.literal := by
  constructor
  · intro before segment after h ahead
    obtain ⟨c, rest, hsource, rfl, rfl⟩ := Segment.ofSource_split h
    have hahead : ahead = c :: rest := by
      change source.toList.drop _ = _
      rw [hsource, List.drop_left]
    rw [hahead, Segment.text_ofSource, Segment.text_cut]
    exact ⟨rfl, Segment.munched_cut c rest⟩
  · intro token hmem hkind
    obtain hmem | hmem := List.mem_append.mp hmem
    · have hlexeme := lexeme_of_mem hmem
      exact ⟨hlexeme, fun kind literal h => hlexeme.unique h⟩
    · rw [List.mem_singleton.mp hmem] at hkind
      exact absurd rfl hkind

theorem mixture_maximal_munch :
    (Segment.token .equalEqual .null ['=', '=']).Longest
      ['=', '=', '=', 't', 'r', 'u', 'e', 's', '/', '/', 'x', '\n', '£', '"', 'a'] ∧
    (∀ other : Segment, other.Formed → ¬ other.text <+: ['£', '"', 'a']) ∧
    ∀ kind literal, Lexeme kind literal ['t', 'r', 'u', 'e', 's'] →
      kind = .identifier ∧ literal = .null := by
  obtain ⟨hpieces, htokens⟩ := scan_maximal_munch mixture
  have hmem : (⟨.identifier, "trues", .null, 1⟩ : Token) ∈ (scan mixture).tokens := by
    change _ ∈ ((Segment.withLines 1 (Segment.ofSource mixture.toList)).filterMap _) ++ _
    rw [ofSource_mixture]
    apply List.mem_append_left
    decide
  rw [ofSource_mixture] at hpieces
  have hequals := hpieces (mixturePieces.take 2) _ (mixturePieces.drop 3) rfl
  have hpound := hpieces (mixturePieces.take 7) _ (mixturePieces.drop 8) rfl
  exact ⟨hequals.2, hpound.2.2, (htokens _ hmem (by decide)).2⟩

end ScriptLang
