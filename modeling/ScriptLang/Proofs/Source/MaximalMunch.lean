import ScriptLang.Proofs.Source.Lexeme

namespace ScriptLang.Segment

section Classes

variable {c : Char} {more : List Char}

theorem takeWhile_digits (h : ∀ d ∈ more, Digit d) (rest : List Char) :
    (more ++ rest).takeWhile Char.isDigit = more ++ rest.takeWhile Char.isDigit :=
  List.takeWhile_append_of_pos fun d hmem => isDigit_iff.mpr (h d hmem)

theorem dropWhile_digits (h : ∀ d ∈ more, Digit d) (rest : List Char) :
    (more ++ rest).dropWhile Char.isDigit = rest.dropWhile Char.isDigit :=
  List.dropWhile_append_of_pos fun d hmem => isDigit_iff.mpr (h d hmem)

theorem number_whole (h : ∀ d ∈ more, Digit d) :
    number c more =
      (.token .number (.number (Double.ofDecimal false (c :: more) [])) (c :: more), []) := by
  have htake := takeWhile_digits h []
  have hdrop := dropWhile_digits h []
  rw [List.append_nil] at htake hdrop
  unfold number
  rw [htake, hdrop]
  simp [fraction]

theorem number_decimal {d : Char} {digits : List Char} (h : ∀ e ∈ more, Digit e) (hd : Digit d)
    (hdigits : ∀ e ∈ digits, Digit e) (rest : List Char) :
    number c (more ++ '.' :: d :: (digits ++ rest)) =
      (.token .number
        (.number
          (Double.ofDecimal false (c :: more) (d :: (digits ++ rest.takeWhile Char.isDigit))))
        (c :: more ++ '.' :: d :: (digits ++ rest.takeWhile Char.isDigit)),
        rest.dropWhile Char.isDigit) := by
  have hpoint (after : List Char) : ('.' :: after).takeWhile Char.isDigit = [] := rfl
  have hpoint' (after : List Char) : ('.' :: after).dropWhile Char.isDigit = '.' :: after := rfl
  unfold number
  rw [takeWhile_digits h, dropWhile_digits h, hpoint, hpoint', List.append_nil, fraction,
    if_pos (isDigit_iff.mpr hd), takeWhile_digits hdigits, dropWhile_digits hdigits]
  rfl

theorem text_number_append (h : ∀ d ∈ more, Digit d) (rest : List Char) :
    c :: more <+: (number c (more ++ rest)).1.text := by
  unfold number
  rw [takeWhile_digits h]
  refine ⟨rest.takeWhile Char.isDigit ++ (fraction ((more ++ rest).dropWhile Char.isDigit)).1, ?_⟩
  simp [text]

theorem takeWhile_word (h : ∀ d ∈ more, Letter d ∨ Digit d) (rest : List Char) :
    (more ++ rest).takeWhile isWordRest = more ++ rest.takeWhile isWordRest :=
  List.takeWhile_append_of_pos fun d hmem => isWordRest_iff.mpr (h d hmem)

theorem text_word_append (h : ∀ d ∈ more, Letter d ∨ Digit d) (rest : List Char) :
    c :: more <+: (word c (more ++ rest)).1.text := by
  unfold word
  rw [takeWhile_word h]
  exact ⟨rest.takeWhile isWordRest, rfl⟩

theorem ne_of_not_mem {stop : Char} (h : stop ∉ more) : ∀ d ∈ more, decide (d ≠ stop) = true := by
  intro d hmem
  apply decide_eq_true
  intro heq
  rw [heq] at hmem
  exact h hmem

theorem quoted_append (h : '"' ∉ more) (rest : List Char) :
    quoted (more ++ '"' :: rest) =
      (.token .string (.string (String.ofList more)) ('"' :: (more ++ ['"'])), rest) := by
  have hkept := ne_of_not_mem h
  have hquote : ('"' :: rest).takeWhile (· ≠ '"') = [] := rfl
  have hquote' : ('"' :: rest).dropWhile (· ≠ '"') = '"' :: rest := rfl
  unfold quoted
  rw [List.takeWhile_append_of_pos hkept, List.dropWhile_append_of_pos hkept, hquote, hquote',
    List.append_nil]

theorem takeWhile_comment (h : '\n' ∉ more) (rest : List Char) :
    (more ++ rest).takeWhile (· ≠ '\n') = more ++ rest.takeWhile (· ≠ '\n') :=
  List.takeWhile_append_of_pos (ne_of_not_mem h)

/-- A reserved word is a word. -/
theorem letters_of_reserved {kind : TokenKind} {literal : Literal}
    (h : (c :: more, kind, literal) ∈ words) : Letter c ∧ ∀ d ∈ more, Letter d ∨ Digit d := by
  have hall : ∀ entry ∈ words, entry.1.all isWordStart := by decide
  have hletters := List.all_eq_true.mp (hall _ h)
  refine ⟨isWordStart_iff.mp (hletters c List.mem_cons_self), ?_⟩
  intro d hmem
  exact Or.inl (isWordStart_iff.mp (hletters d (List.mem_cons_of_mem _ hmem)))

end Classes

section Alone

def cutsAsItself (entry : List Char × TokenKind) : Bool :=
  match entry.1 with
  | c :: more => (cut c more).1 = .token entry.2 .null entry.1
  | [] => false

variable {c : Char} {more : List Char}

theorem cut_lexeme {kind : TokenKind} {literal : Literal} {text : List Char}
    (h : Lexeme kind literal text) (htext : text = c :: more) :
    (cut c more).1 = .token kind literal text := by
  cases h with
  | mark h =>
    have hall : ∀ entry ∈ marks, cutsAsItself entry := by decide
    have hcut := hall _ h
    rw [htext] at hcut ⊢
    exact of_decide_eq_true hcut
  | whole hne h hvalue =>
    subst htext
    rw [cut_of_digit (h c List.mem_cons_self),
      number_whole fun d hmem => h d (List.mem_cons_of_mem _ hmem),
      hvalue.unique (isNearest_of_digits _)]
  | @decimal whole fraction value hwhole hfraction h hvalue =>
    -- only one number is nearest to the digits
    obtain rfl := hvalue.unique (Double.isNearest_ofDecimal whole fraction)
    obtain ⟨d, digits, rfl⟩ := List.exists_cons_of_ne_nil hfraction
    obtain ⟨first, whole, rfl⟩ := List.exists_cons_of_ne_nil hwhole
    cases htext
    have hmore : ∀ e ∈ whole, Digit e := fun e hmem => h e (by simp [hmem])
    have hdigits : ∀ e ∈ digits, Digit e := fun e hmem => h e (by simp [hmem])
    have hnumber := number_decimal (c := c) hmore (h d (by simp)) hdigits []
    rw [List.append_nil, List.takeWhile_nil, List.append_nil] at hnumber
    rw [cut_of_digit (h c (by simp))]
    exact congrArg Prod.fst hnumber
  | reserved h =>
    subst htext
    obtain ⟨hc, hmore⟩ := letters_of_reserved h
    have htake := takeWhile_word hmore []
    rw [List.append_nil, List.takeWhile_nil, List.append_nil] at htake
    obtain ⟨hkind, hliteral⟩ := ofWord_of_mem h
    rw [cut_of_letter hc, word, htake, hkind, hliteral]
  | name hc hmore h =>
    cases htext
    have htake := takeWhile_word hmore []
    rw [List.append_nil, List.takeWhile_nil, List.append_nil] at htake
    rw [cut_of_letter hc, word, htake, ofWord_of_not_mem h]
    rfl
  | string h =>
    cases htext
    exact congrArg Prod.fst (quoted_append h [])

/-- A well-formed piece is what is cut off its own text. -/
theorem Formed.cut_eq {segment : Segment} (h : segment.Formed) (htext : segment.text = c :: more) :
    (cut c more).1 = segment := by
  cases h with
  | token h => exact cut_lexeme h htext
  | @blank c h =>
    cases htext
    have hall : [' ', '\t', '\r'].all fun c => (cut c []).1 = Segment.blank c := by decide
    exact of_decide_eq_true (List.all_eq_true.mp hall c h)
  | newline =>
    cases htext
    rfl
  | comment h =>
    cases htext
    have htake := takeWhile_comment h []
    rw [List.append_nil, List.takeWhile_nil, List.append_nil] at htake
    change Segment.comment _ = _
    rw [htake]

theorem Formed.text_ne_nil {segment : Segment} (h : segment.Formed) : segment.text ≠ [] := by
  cases h with
  | token h =>
    cases h with
    | mark h =>
      have hall : ∀ entry ∈ marks, entry.1 ≠ [] := by decide
      exact hall _ h
    | whole hne => exact hne
    | decimal hwhole => exact List.append_ne_nil_of_left_ne_nil hwhole _
    | reserved h =>
      have hall : ∀ entry ∈ words, entry.1 ≠ [] := by decide
      exact hall _ h
    | name hc hrest h => exact List.cons_ne_nil _ _
    | string h => exact List.cons_ne_nil _ _
  | blank h => exact List.cons_ne_nil _ _
  | newline => exact List.cons_ne_nil _ _
  | comment h => exact List.cons_ne_nil _ _

/-- The text of a well-formed piece says what it is. -/
theorem Formed.eq_of_text {segment other : Segment} (h : segment.Formed) (h' : other.Formed)
    (htext : other.text = segment.text) : other = segment := by
  obtain ⟨c, more, hcons⟩ := List.exists_cons_of_ne_nil h.text_ne_nil
  rw [← h.cut_eq hcons, ← h'.cut_eq (htext.trans hcons)]

end Alone

section Longest

variable {c : Char} {more : List Char}

theorem length_lexeme_le {kind : TokenKind} {literal : Literal} {text : List Char}
    (h : Lexeme kind literal text) (htext : text = c :: more) (rest : List Char) :
    text.length ≤ (cut c (more ++ rest)).1.text.length := by
  cases h with
  | mark h =>
    have hall : ∀ entry ∈ marks, entry.1.length = 1 ∨
        entry.1 ∈ [['!', '='], ['=', '='], ['<', '='], ['>', '=']] := by decide
    -- An operator of two characters is taken whole; nothing that is cut off is empty.
    obtain hone | hdouble := hall _ h
    · rw [hone]
      exact List.length_pos_iff.mpr (text_cut_ne_nil c (more ++ rest))
    · rw [htext] at hdouble ⊢
      simp only [List.mem_cons, List.cons.injEq, List.not_mem_nil, or_false] at hdouble
      obtain ⟨rfl, rfl⟩ | ⟨rfl, rfl⟩ | ⟨rfl, rfl⟩ | ⟨rfl, rfl⟩ := hdouble
      all_goals exact Nat.le_refl 2
  | whole hne h =>
    subst htext
    rw [cut_of_digit (h c List.mem_cons_self)]
    exact (text_number_append (fun d hmem => h d (List.mem_cons_of_mem _ hmem)) rest).length_le
  | @decimal whole fraction value hwhole hfraction h =>
    obtain ⟨d, digits, rfl⟩ := List.exists_cons_of_ne_nil hfraction
    obtain ⟨first, whole, rfl⟩ := List.exists_cons_of_ne_nil hwhole
    obtain ⟨rfl, rfl⟩ := List.cons.inj htext
    have hmore : ∀ e ∈ whole, Digit e := fun e hmem => h e (by simp [hmem])
    have hdigits : ∀ e ∈ digits, Digit e := fun e hmem => h e (by simp [hmem])
    have hnumber := number_decimal (c := first) hmore (h d (by simp)) hdigits rest
    rw [cut_of_digit (h first (by simp)), List.append_eq, List.append_assoc, List.cons_append,
      List.cons_append, List.cons_append, hnumber]
    simp only [text, List.length_append, List.length_cons]
    omega
  | reserved h =>
    subst htext
    obtain ⟨hc, hmore⟩ := letters_of_reserved h
    rw [cut_of_letter hc]
    exact (text_word_append hmore rest).length_le
  | name hc hmore h =>
    cases htext
    rw [cut_of_letter hc]
    exact (text_word_append hmore rest).length_le
  | string h =>
    cases htext
    have hquoted := congrArg Prod.fst (quoted_append h rest)
    rw [List.append_assoc]
    change _ ≤ (quoted _).1.text.length
    rw [List.singleton_append, hquoted]
    exact Nat.le_refl _

/-- What is cut off is no shorter than any well-formed piece at the head of a source. -/
theorem Formed.length_le {segment : Segment} (h : segment.Formed) (htext : segment.text = c :: more)
    (rest : List Char) : segment.text.length ≤ (cut c (more ++ rest)).1.text.length := by
  cases h with
  | token h => exact length_lexeme_le h htext rest
  | blank h =>
    cases htext
    exact List.length_pos_iff.mpr (text_cut_ne_nil _ _)
  | newline =>
    cases htext
    exact List.length_pos_iff.mpr (text_cut_ne_nil _ _)
  | @comment body h =>
    obtain ⟨rfl, rfl⟩ := List.cons.inj htext
    change _ ≤ (slash ('/' :: (body ++ rest))).1.text.length
    rw [slash, takeWhile_comment h rest]
    simp only [text, List.length_append, List.length_cons]
    omega

/-- The characters that a well-formed piece can begin with. -/
theorem Formed.begins {segment : Segment} (h : segment.Formed) (htext : segment.text = c :: more) :
    c ∈ specials ∨ Digit c ∨ Letter c := by
  by_cases hspecial : c ∈ specials
  · exact Or.inl hspecial
  by_cases hdigit : Digit c
  · exact Or.inr (Or.inl hdigit)
  by_cases hletter : Letter c
  · exact Or.inr (Or.inr hletter)
  -- No other character begins what is cut off as well-formed.
  have halone := h.cut_eq htext
  rw [← isDigit_iff] at hdigit
  rw [← isWordStart_iff] at hletter
  rw [cut_of_not_special hspecial, if_neg hdigit, if_neg hletter] at halone
  rw [← halone] at h
  cases h

/-- Where a well-formed piece begins, one is cut off. -/
theorem Formed.formed_cut {segment : Segment} (h : segment.Formed)
    (htext : segment.text = c :: more) (rest : List Char) : (cut c (more ++ rest)).1.Formed := by
  obtain hformed | ⟨hspecial, hdigit, hletter, -⟩ | ⟨rfl, hopen, -⟩ := cut_cases c (more ++ rest)
  · exact hformed
  · obtain hmem | hmem | hmem := h.begins htext
    · exact absurd hmem hspecial
    · exact absurd hmem hdigit
    · exact absurd hmem hletter
  · have halone := h.cut_eq htext
    change (quoted more).1 = segment at halone
    obtain ⟨-, hmem⟩ | ⟨-, hquoted⟩ := quoted_cases more
    · exact absurd (List.mem_append_left rest hmem) hopen
    · rw [hquoted] at halone
      rw [← halone] at h
      cases h

/-- A well-formed piece at the head of a source, and none there is longer. -/
structure Longest (segment : Segment) (source : List Char) : Prop where
  formed : segment.Formed
  heads : segment.text <+: source
  longest : ∀ other : Segment, other.Formed → other.text <+: source →
    other.text.length ≤ segment.text.length

/-- What a well-formed piece at the head of a source says of what is cut off there. -/
theorem Formed.cut_of_heads {segment : Segment} (h : segment.Formed) {source : List Char}
    (hheads : segment.text <+: c :: source) :
    (cut c source).1.Formed ∧ segment.text.length ≤ (cut c source).1.text.length := by
  obtain ⟨rest, hrest⟩ := hheads
  obtain ⟨first, more, hcons⟩ := List.exists_cons_of_ne_nil h.text_ne_nil
  rw [hcons] at hrest
  obtain ⟨rfl, rfl⟩ := List.cons.inj hrest
  exact ⟨h.formed_cut hcons rest, h.length_le hcons rest⟩

theorem longest_cut (c : Char) (source : List Char) (h : (cut c source).1.Formed) :
    (cut c source).1.Longest (c :: source) where
  formed := h
  heads := ⟨(cut c source).2, text_cut c source⟩
  longest _ hother hheads := (hother.cut_of_heads hheads).2

end Longest

end ScriptLang.Segment
