import ScriptLang.Proofs.Source.Concatenation

namespace ScriptLang

def Token.content (token : Token) : TokenKind × String × Literal :=
  (token.kind, token.lexeme, token.literal)

/-- Something between tokens. A comment comes with the newline that ends it. -/
inductive Filler where
  | space (c : Char) (h : c ∈ Segment.breaks)
  | comment (body : List Char) (h : '\n' ∉ body)

namespace Filler

def text : Filler → List Char
  | space c _ => [c]
  | comment body _ => '/' :: '/' :: (body ++ ['\n'])

def pieces : Filler → List Segment
  | space c _ => [if c = '\n' then .newline else .blank c]
  | comment body _ => [.comment ('/' :: '/' :: body), .newline]

end Filler

/-- What keeps two tokens apart. It does not begin with a comment, which would take a slash before
it along. -/
structure Separator where
  first : Char
  more : List Filler
  apart : first ∈ Segment.breaks

namespace Separator

def fillers (separator : Separator) : List Filler :=
  .space separator.first separator.apart :: separator.more

def text (separator : Separator) : List Char := separator.fillers.flatMap Filler.text

def pieces (separator : Separator) : List Segment := separator.fillers.flatMap Filler.pieces

end Separator

/-- Tokens, each with what comes between it and the next one. -/
abbrev Layout := List (Token × Separator)

namespace Layout

def text (layout : Layout) : List Char :=
  layout.flatMap fun entry => entry.1.lexeme.toList ++ entry.2.text

def pieces (layout : Layout) : List Segment :=
  layout.flatMap fun entry =>
    .token entry.1.kind entry.1.literal entry.1.lexeme.toList :: entry.2.pieces

end Layout

section Pieces

variable {c d : Char} {more tail : List Char}

/-- A token is cut off whole in front of a blank or a newline. -/
theorem ofSource_lexeme {kind : TokenKind} {literal : Literal} {text : List Char}
    (h : Lexeme kind literal text) (hd : d ∈ Segment.breaks) (tail : List Char) :
    Segment.ofSource (text ++ d :: tail) =
      .token kind literal text :: Segment.ofSource (d :: tail) := by
  obtain ⟨c, more, rfl⟩ := List.exists_cons_of_ne_nil (Segment.Formed.token h).text_ne_nil
  have hcut : (Segment.cut c more).1 = .token kind literal (c :: more) := Segment.cut_lexeme h rfl
  have hrest : (Segment.cut c more).2 = [] := by
    have hjoined := Segment.text_cut c more
    rw [hcut] at hjoined
    exact List.append_right_eq_self.mp hjoined
  have hstops : (Segment.cut c more).1.StopsBefore d := by
    rw [hcut]
    exact hd
  have hwhole : Segment.cut c (more ++ d :: tail) =
      (.token kind literal (c :: more), d :: tail) := by
    rw [Segment.cut_append hstops]
    exact Prod.ext hcut (congrArg (· ++ d :: tail) hrest)
  exact Segment.ofSource_of_cut hwhole rfl

theorem ofSource_space (h : d ∈ Segment.breaks) (tail : List Char) :
    Segment.ofSource (d :: tail) =
      (if d = '\n' then .newline else .blank d) :: Segment.ofSource tail := by
  apply Segment.ofSource_of_cut _ rfl
  obtain rfl | rfl | rfl | rfl := Segment.mem_breaks.mp h <;> rfl

theorem ofSource_filler (filler : Filler) (tail : List Char) :
    Segment.ofSource (filler.text ++ tail) = filler.pieces ++ Segment.ofSource tail := by
  cases filler with
  | space c h => exact ofSource_space h tail
  | comment body h =>
    have hslash : Segment.cut '/' ('/' :: (body ++ ['\n'] ++ tail)) =
        (.comment ('/' :: '/' :: body), '\n' :: tail) := by
      change Segment.slash ('/' :: (body ++ ['\n'] ++ tail)) = _
      rw [List.append_assoc, Segment.slash, Segment.takeWhile_comment h,
        List.dropWhile_append_of_pos (Segment.ne_of_not_mem h)]
      simp
    exact Segment.ofSource_of_cut hslash (ofSource_space (by decide) tail)

theorem ofSource_fillers (fillers : List Filler) (tail : List Char) :
    Segment.ofSource (fillers.flatMap Filler.text ++ tail) =
      fillers.flatMap Filler.pieces ++ Segment.ofSource tail := by
  induction fillers with
  | nil => rfl
  | cons filler fillers ih =>
    rw [List.flatMap_cons, List.append_assoc, ofSource_filler, ih, List.flatMap_cons,
      List.append_assoc]

/-- A layout falls into its tokens and what is between them. -/
theorem ofSource_layout {layout : Layout}
    (h : ∀ entry ∈ layout, Lexeme entry.1.kind entry.1.literal entry.1.lexeme.toList) :
    Segment.ofSource (Layout.text layout) = Layout.pieces layout := by
  induction layout with
  | nil => exact Segment.ofSource_nil
  | cons entry layout ih =>
    obtain ⟨token, separator⟩ := entry
    have hfirst := h (token, separator) List.mem_cons_self
    have hrest := ih fun entry hmem => h entry (List.mem_cons_of_mem _ hmem)
    have hapart := ofSource_fillers separator.fillers (Layout.text layout)
    calc Segment.ofSource (Layout.text ((token, separator) :: layout))
      _ = Segment.ofSource (token.lexeme.toList ++ (separator.text ++ Layout.text layout)) := by
        rw [← List.append_assoc]
        rfl
      _ = .token token.kind token.literal token.lexeme.toList ::
            Segment.ofSource (separator.text ++ Layout.text layout) :=
        ofSource_lexeme hfirst separator.apart _
      _ = .token token.kind token.literal token.lexeme.toList ::
            (separator.pieces ++ Layout.pieces layout) := by
        rw [← hrest]
        exact congrArg _ hapart
      _ = Layout.pieces ((token, separator) :: layout) := rfl

end Pieces

section Views

def Segment.content? : Segment → Option (TokenKind × String × Literal)
  | .token kind literal text => some (kind, String.ofList text, literal)
  | _ => none

theorem content_token (segment : Segment) (line : Int) :
    (Segment.token? (segment, line)).map Token.content = segment.content? := by
  cases segment <;> rfl

/-- What is between tokens is neither a token nor an error. -/
theorem skipped_of_mem_fillers {segment : Segment} {fillers : List Filler}
    (h : segment ∈ fillers.flatMap Filler.pieces) :
    segment.content? = none ∧ segment.complaint? = none := by
  obtain ⟨filler, -, hmem⟩ := List.mem_flatMap.mp h
  cases filler with
  | space c h =>
    rw [List.mem_singleton.mp hmem]
    split <;> exact ⟨rfl, rfl⟩
  | comment body h =>
    simp only [Filler.pieces, List.mem_cons, List.not_mem_nil, or_false] at hmem
    obtain rfl | rfl := hmem <;> exact ⟨rfl, rfl⟩

theorem content_pieces (layout : Layout) :
    (Layout.pieces layout).filterMap Segment.content? =
      layout.map fun entry => entry.1.content := by
  induction layout with
  | nil => rfl
  | cons entry layout ih =>
    obtain ⟨token, separator⟩ := entry
    have hskipped : separator.pieces.filterMap Segment.content? = [] :=
      List.filterMap_eq_nil_iff.mpr fun _ hmem => (skipped_of_mem_fillers hmem).1
    have htoken : (Segment.token token.kind token.literal token.lexeme.toList).content? =
        some token.content := by
      change some (token.kind, String.ofList token.lexeme.toList, token.literal) = _
      rw [String.ofList_toList]
      rfl
    unfold Layout.pieces at ih ⊢
    rw [List.flatMap_cons, List.cons_append, List.filterMap_cons_some htoken,
      List.filterMap_append, hskipped, ih]
    rfl

theorem complaint_pieces (layout : Layout) :
    (Layout.pieces layout).filterMap Segment.complaint? = [] := by
  apply List.filterMap_eq_nil_iff.mpr
  intro segment hmem
  obtain ⟨entry, -, hmem⟩ := List.mem_flatMap.mp hmem
  obtain rfl | hmem := List.mem_cons.mp hmem
  · rfl
  · exact (skipped_of_mem_fillers hmem).2

/-- A token of a source is a lexeme, the end mark apart. -/
theorem lexeme_of_scan {source : String} {token : Token} (h : token ∈ (scan source).tokens)
    (hkind : token.kind ≠ .eof) : Lexeme token.kind token.literal token.lexeme.toList := by
  rw [tokens_scan] at h
  obtain hmem | hmem := List.mem_append.mp h
  · exact lexeme_of_mem hmem
  · rw [List.mem_singleton.mp hmem] at hkind
    exact absurd rfl hkind

end Views

/-- Tokens that were once scanned are scanned again, without an error, from any source in which they
stand with a separator behind each. So a source that is laid out anew keeps its tokens, their lines
apart. -/
theorem scan_layout (layout : Layout)
    (h : ∀ entry ∈ layout,
      entry.1.kind ≠ .eof ∧ ∃ source, entry.1 ∈ (scan source).tokens) :
    let again := scan (String.ofList (Layout.text layout))
    again.errors = [] ∧
    (∃ tokens mark, again.tokens = tokens ++ [mark] ∧
      mark.content = (.eof, "", .null) ∧
      tokens.map Token.content = layout.map fun entry => entry.1.content) ∧
    ∀ source mark, (scan source).tokens = layout.map Prod.fst ++ [mark] →
      again.tokens.map Token.content = (scan source).tokens.map Token.content := by
  intro again
  have hpieces : Segment.ofSource (String.ofList (Layout.text layout)).toList =
      Layout.pieces layout := by
    rw [String.toList_ofList]
    apply ofSource_layout
    intro entry hmem
    obtain ⟨hkind, source, htoken⟩ := h entry hmem
    exact lexeme_of_scan htoken hkind
  have herrors := Segment.filterMap_withLines Segment.view_error 1
    (Segment.ofSource (String.ofList (Layout.text layout)).toList)
  have htokens := Segment.filterMap_withLines content_token 1
    (Segment.ofSource (String.ofList (Layout.text layout)).toList)
  rw [hpieces, complaint_pieces, List.map_eq_nil_iff] at herrors
  rw [hpieces, content_pieces] at htokens
  have hagain : again.tokens.map Token.content =
      layout.map (fun entry => entry.1.content) ++ [(.eof, "", .null)] := by
    change (scan _).tokens.map Token.content = _
    rw [tokens_scan, List.map_append, hpieces, htokens]
    rfl
  refine ⟨?_, ⟨_, _, tokens_scan _, rfl, ?_⟩, ?_⟩
  · change (scan _).errors = []
    rw [errors_scan, hpieces, herrors]
  · rw [hpieces, htokens]
  · intro source mark hsource
    -- The last token of a source is its end mark.
    have hmark : mark.content = (.eof, "", .null) := by
      rw [tokens_scan] at hsource
      rw [← (List.append_singleton_inj.mp hsource).2]
      rfl
    rw [hagain, hsource, List.map_append, List.map_map, List.map_singleton, hmark]
    rfl

def slashes : String := "/ \"a //\nb\" 1 ."

def slashesApart : Layout :=
  [(⟨.slash, "/", .null, 1⟩, ⟨' ', [.comment ['"', '1'] (by decide)], by decide⟩),
   (⟨.string, "\"a //\nb\"", .string "a //\nb", 2⟩, ⟨'\t', [], by decide⟩),
   (⟨.number, "1", .number (Double.ofDecimal false ['1'] []), 2⟩,
    ⟨'\r', [.space '\n' (by decide)], by decide⟩),
   (⟨.dot, ".", .null, 2⟩, ⟨'\n', [.comment [] (by decide)], by decide⟩)]

theorem tokens_slashes :
    (scan slashes).tokens = slashesApart.map Prod.fst ++ [Token.endMark 2] := by
  have hlist : slashes.toList =
      ['/', ' ', '"', 'a', ' ', '/', '/', '\n', 'b', '"', ' ', '1', ' ', '.'] := by decide
  have hpieces : Segment.ofSource slashes.toList =
      [.token .slash .null ['/'], .blank ' ',
       .token .string (.string (String.ofList ['a', ' ', '/', '/', '\n', 'b']))
         ['"', 'a', ' ', '/', '/', '\n', 'b', '"'],
       .blank ' ', .token .number (.number (Double.ofDecimal false ['1'] [])) ['1'], .blank ' ',
       .token .dot .null ['.']] := by
    rw [hlist]
    iterate 7 apply Segment.ofSource_of_cut rfl
    exact Segment.ofSource_nil
  rw [tokens_scan, hpieces, hlist]
  rfl

theorem scan_slashesApart :
    (∀ entry ∈ slashesApart, entry.1.kind ≠ .eof ∧ entry.1 ∈ (scan slashes).tokens) ∧
    (scan (String.ofList (Layout.text slashesApart))).errors = [] ∧
    (scan (String.ofList (Layout.text slashesApart))).tokens.map Token.content =
      [(.slash, "/", .null), (.string, "\"a //\nb\"", .string "a //\nb"),
       (.number, "1", .number (Double.ofDecimal false ['1'] [])), (.dot, ".", .null),
       (.eof, "", .null)] := by
  have hmem : ∀ entry ∈ slashesApart,
      entry.1.kind ≠ .eof ∧ entry.1 ∈ (scan slashes).tokens := by
    intro entry hentry
    have hkinds : ∀ token ∈ slashesApart.map Prod.fst, token.kind ≠ .eof := by decide
    have htoken := List.mem_map_of_mem (f := Prod.fst) hentry
    refine ⟨hkinds entry.1 htoken, ?_⟩
    rw [tokens_slashes]
    exact List.mem_append_left _ htoken
  obtain ⟨herrors, -, hsame⟩ := scan_layout slashesApart fun entry hentry =>
    ⟨(hmem entry hentry).1, slashes, (hmem entry hentry).2⟩
  refine ⟨hmem, herrors, ?_⟩
  rw [hsame slashes _ tokens_slashes, tokens_slashes]
  rfl

end ScriptLang
