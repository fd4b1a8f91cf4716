import ScriptLang.Proofs.Double.Nearest
import ScriptLang.Source.Scan

namespace ScriptLang

/-- The spellings of punctuation and operators. -/
def marks : List (List Char × TokenKind) :=
  [(['('], .leftParen), ([')'], .rightParen), (['\x7b'], .leftBrace), (['\x7d'], .rightBrace),
   ([','], .comma), (['.'], .dot), (['-'], .minus), (['+'], .plus), ([';'], .semicolon),
   (['*'], .star), (['%'], .percent), (['/'], .slash),
   (['!'], .bang), (['!', '='], .bangEqual), (['='], .equal), (['=', '='], .equalEqual),
   (['<'], .less), (['<', '='], .lessEqual), (['>'], .greater), (['>', '='], .greaterEqual)]

/-- The reserved words, each with its kind and with the literal that it stands for. -/
def words : List (List Char × TokenKind × Literal) :=
  [(['a', 'n', 'd'], .andWord, .null), (['e', 'l', 's', 'e'], .elseWord, .null),
   (['f', 'a', 'l', 's', 'e'], .falseWord, .bool false), (['f', 'n'], .fnWord, .null),
   (['i', 'f'], .ifWord, .null), (['l', 'e', 't'], .letWord, .null),
   (['n', 'u', 'l', 'l'], .nullWord, .null), (['o', 'r'], .orWord, .null),
   (['p', 'r', 'i', 'n', 't'], .printWord, .null), (['t', 'r', 'u', 'e'], .trueWord, .bool true),
   (['w', 'h', 'i', 'l', 'e'], .whileWord, .null)]

def Digit (c : Char) : Prop := '0' ≤ c ∧ c ≤ '9'

def Letter (c : Char) : Prop := ('a' ≤ c ∧ c ≤ 'z') ∨ ('A' ≤ c ∧ c ≤ 'Z') ∨ c = '_'

/-- The token grammar: the texts of each kind of token, and the literal that the token carries. A
number carries the one nearest to what its digits say. -/
inductive Lexeme : TokenKind → Literal → List Char → Prop where
  | mark {text : List Char} {kind : TokenKind} (h : (text, kind) ∈ marks) : Lexeme kind .null text
  | whole {digits : List Char} {value : Double} (hne : digits ≠ []) (h : ∀ c ∈ digits, Digit c)
      (hvalue : value.IsNearest (Nat.ofDigitChars 10 digits 0)) :
      Lexeme .number (.number value) digits
  | decimal {whole fraction : List Char} {value : Double} (hwhole : whole ≠ [])
      (hfraction : fraction ≠ []) (h : ∀ c ∈ whole ++ fraction, Digit c)
      (hvalue : value.IsNearest
        (Nat.ofDigitChars 10 (whole ++ fraction) 0 / 10 ^ fraction.length)) :
      Lexeme .number (.number value) (whole ++ '.' :: fraction)
  | reserved {text : List Char} {kind : TokenKind} {literal : Literal}
      (h : (text, kind, literal) ∈ words) : Lexeme kind literal text
  | name {c : Char} {rest : List Char} (hc : Letter c) (hrest : ∀ d ∈ rest, Letter d ∨ Digit d)
      (h : c :: rest ∉ words.map Prod.fst) : Lexeme .identifier .null (c :: rest)
  | string {body : List Char} (h : '"' ∉ body) :
      Lexeme .string (.string (String.ofList body)) ('"' :: (body ++ ['"']))

theorem isNearest_of_digits (digits : List Char) :
    (Double.ofDecimal false digits []).IsNearest (Nat.ofDigitChars 10 digits 0) := by
  have hnearest := Double.isNearest_ofDecimal digits []
  rwa [List.append_nil, List.length_nil, pow_zero, div_one] at hnearest

namespace Segment

/-- What a piece of a source can be, a character that is not expected and an open string apart. -/
inductive Formed : Segment → Prop where
  | token {kind : TokenKind} {literal : Literal} {text : List Char}
      (h : Lexeme kind literal text) : Formed (.token kind literal text)
  | blank {c : Char} (h : c ∈ [' ', '\t', '\r']) : Formed (.blank c)
  | newline : Formed .newline
  | comment {body : List Char} (h : '\n' ∉ body) : Formed (.comment ('/' :: '/' :: body))

section Cut

variable {c : Char} {rest : List Char}

theorem isDigit_iff : c.isDigit = true ↔ Digit c := by
  unfold Char.isDigit Digit
  rw [Bool.and_eq_true, decide_eq_true_eq, decide_eq_true_eq]
  rfl

theorem isWordStart_iff : isWordStart c = true ↔ Letter c := by
  have hlower : c.isLower = true ↔ 'a' ≤ c ∧ c ≤ 'z' := by
    unfold Char.isLower
    rw [Bool.and_eq_true, decide_eq_true_eq, decide_eq_true_eq]
    rfl
  have hupper : c.isUpper = true ↔ 'A' ≤ c ∧ c ≤ 'Z' := by
    unfold Char.isUpper
    rw [decide_eq_true_eq]
    rfl
  unfold isWordStart Char.isAlpha Letter
  rw [Bool.or_eq_true, Bool.or_eq_true, hlower, hupper, decide_eq_true_eq, or_assoc]
  exact or_left_comm

theorem isWordRest_iff : isWordRest c = true ↔ Letter c ∨ Digit c := by
  unfold isWordRest
  rw [Bool.or_eq_true, isWordStart_iff, isDigit_iff]

theorem not_digit_of_letter (h : Letter c) : ¬ Digit c := by
  intro hdigit
  obtain ⟨ha, -⟩ | ⟨hA, -⟩ | hunderscore := h
  · exact absurd (Char.le_trans ha hdigit.2) (by decide)
  · exact absurd (Char.le_trans hA hdigit.2) (by decide)
  · rw [hunderscore] at hdigit
    exact absurd hdigit.2 (by decide)

def specials : List Char :=
  ['(', ')', '\x7b', '\x7d', ',', '.', '-', '+', ';', '*', '%', '/', '!', '=', '<', '>',
   ' ', '\t', '\r', '\n', '"']

theorem cut_of_not_special (h : c ∉ specials) : cut c rest =
    if c.isDigit then number c rest
    else if isWordStart c then word c rest
    else (.unexpected c, rest) := by
  have hpunctuation : TokenKind.ofPunctuation? c = none := by
    unfold TokenKind.ofPunctuation?
    split <;> first | rfl | exact absurd (by decide) h
  have hoperator : TokenKind.ofOperatorStart? c = none := by
    unfold TokenKind.ofOperatorStart?
    split <;> first | rfl | exact absurd (by decide) h
  have hne {d : Char} (hd : d ∈ specials) : c ≠ d := by
    intro heq
    rw [heq] at h
    exact h hd
  have hblank : isBlank c = false := by
    unfold isBlank
    simp [hne (d := ' ') (by decide), hne (d := '\t') (by decide), hne (d := '\r') (by decide)]
  unfold cut
  rw [hpunctuation, hoperator]
  simp only
  rw [if_neg (hne (d := '/') (by decide)), hblank, if_neg Bool.false_ne_true,
    if_neg (hne (d := '\n') (by decide)), if_neg (hne (d := '"') (by decide))]

theorem cut_of_digit (h : Digit c) : cut c rest = number c rest := by
  have hdigit := isDigit_iff.mpr h
  have hspecial : c ∉ specials := by
    intro hmem
    have hnone : specials.all (!·.isDigit) := by decide
    have hnot := List.all_eq_true.mp hnone c hmem
    rw [hdigit] at hnot
    cases hnot
  rw [cut_of_not_special hspecial, if_pos hdigit]

theorem cut_of_letter (h : Letter c) : cut c rest = word c rest := by
  have hletter := isWordStart_iff.mpr h
  have hspecial : c ∉ specials := by
    intro hmem
    have hnone : specials.all (!isWordStart ·) := by decide
    have hnot := List.all_eq_true.mp hnone c hmem
    rw [hletter] at hnot
    cases hnot
  have hdigit : ¬ c.isDigit = true := fun hdigit => not_digit_of_letter h (isDigit_iff.mp hdigit)
  rw [cut_of_not_special hspecial, if_neg hdigit, if_pos hletter]

theorem digit_of_mem_takeWhile {d : Char} (h : d ∈ rest.takeWhile Char.isDigit) : Digit d :=
  isDigit_iff.mp (List.all_eq_true.mp List.all_takeWhile d h)

/-- The fraction at the head of a text is empty, or a point with digits behind it. -/
theorem fraction_cases (rest : List Char) : fraction rest = ([], rest) ∨
    ∃ d more, rest = '.' :: d :: more ∧ Digit d ∧
      fraction rest = ('.' :: d :: more.takeWhile Char.isDigit, more.dropWhile Char.isDigit) := by
  unfold fraction
  split
  · next d more =>
    by_cases h : d.isDigit
    · rw [if_pos h]
      exact Or.inr ⟨d, more, rfl, isDigit_iff.mp h, rfl⟩
    · rw [if_neg h]
      exact Or.inl rfl
  · exact Or.inl rfl

theorem formed_number (h : Digit c) : (number c rest).1.Formed := by
  have hwhole : ∀ d ∈ c :: rest.takeWhile Char.isDigit, Digit d := by
    intro d hmem
    obtain rfl | hmem := List.mem_cons.mp hmem
    · exact h
    · exact digit_of_mem_takeWhile hmem
  unfold number
  obtain hnone | ⟨d, more, -, hd, hsome⟩ := fraction_cases (rest.dropWhile Char.isDigit)
  · rw [hnone]
    simp only [List.append_nil, List.drop_nil]
    exact Formed.token (Lexeme.whole (List.cons_ne_nil _ _) hwhole (isNearest_of_digits _))
  · rw [hsome]
    apply Formed.token
    refine Lexeme.decimal (List.cons_ne_nil _ _) (List.cons_ne_nil _ _) ?_
      (Double.isNearest_ofDecimal _ _)
    intro d' hmem
    obtain hmem | hmem := List.mem_append.mp hmem
    · exact hwhole d' hmem
    · obtain rfl | hmem := List.mem_cons.mp hmem
      · exact hd
      · exact digit_of_mem_takeWhile hmem

/-- The scanner's table and its literals are those of the reserved words. -/
theorem ofWord_of_mem {text : List Char} {kind : TokenKind} {literal : Literal}
    (h : (text, kind, literal) ∈ words) :
    TokenKind.ofWord text = kind ∧ kind.wordLiteral = literal := by
  have hall : ∀ entry ∈ words,
      TokenKind.ofWord entry.1 = entry.2.1 ∧ entry.2.1.wordLiteral = entry.2.2 := by decide
  exact hall _ h

theorem ofWord_of_not_mem {text : List Char} (h : text ∉ words.map Prod.fst) :
    TokenKind.ofWord text = .identifier := by
  have hsame : words.map Prod.fst = TokenKind.reserved.map Prod.fst := rfl
  have hnone : TokenKind.reserved.lookup text = none := by
    apply List.lookup_eq_none_iff.mpr
    intro entry hmem
    apply bne_iff_ne.mpr
    intro heq
    rw [hsame, heq] at h
    exact h (List.mem_map_of_mem hmem)
  unfold TokenKind.ofWord
  rw [hnone]
  rfl

theorem formed_word (h : Letter c) : (word c rest).1.Formed := by
  unfold word
  apply Formed.token
  by_cases hreserved : c :: rest.takeWhile isWordRest ∈ words.map Prod.fst
  · obtain ⟨⟨text, kind, literal⟩, hmem, rfl⟩ := List.mem_map.mp hreserved
    obtain ⟨rfl, rfl⟩ := ofWord_of_mem hmem
    exact Lexeme.reserved hmem
  · rw [ofWord_of_not_mem hreserved]
    apply Lexeme.name h _ hreserved
    intro d hmem
    exact isWordRest_iff.mp (List.all_eq_true.mp List.all_takeWhile d hmem)

theorem mem_marks_of_punctuation {kind : TokenKind}
    (h : TokenKind.ofPunctuation? c = some kind) : ([c], kind) ∈ marks := by
  unfold TokenKind.ofPunctuation? at h
  split at h
  all_goals cases h
  all_goals decide

theorem formed_blank (h : isBlank c) : (blank c).Formed := by
  apply Formed.blank
  unfold isBlank at h
  simpa [or_assoc] using h

theorem formed_operator {single double : TokenKind}
    (h : TokenKind.ofOperatorStart? c = some (single, double)) :
    (operator single double c rest).1.Formed := by
  have hmarks : ([c], single) ∈ marks ∧ ([c, '='], double) ∈ marks := by
    unfold TokenKind.ofOperatorStart? at h
    split at h
    all_goals cases h
    all_goals decide
  unfold operator
  split
  · exact Formed.token (Lexeme.mark hmarks.2)
  · exact Formed.token (Lexeme.mark hmarks.1)

theorem not_mem_takeWhile (stop : Char) (text : List Char) : stop ∉ text.takeWhile (· ≠ stop) := by
  intro hmem
  have hkept := List.all_eq_true.mp List.all_takeWhile _ hmem
  simp at hkept

theorem formed_slash : (slash rest).1.Formed := by
  unfold slash
  split
  · exact Formed.comment (not_mem_takeWhile _ _)
  · exact Formed.token (Lexeme.mark (by decide))

/-- A string is cut off as far as the quote that closes it, or all is left open. -/
theorem quoted_cases (rest : List Char) :
    ((quoted rest).1.Formed ∧ '"' ∈ rest) ∨
      ('"' ∉ rest ∧ quoted rest = (.unterminated ('"' :: rest), [])) := by
  have hbody := not_mem_takeWhile '"' rest
  have hsplit := List.takeWhile_append_dropWhile (p := (· ≠ '"')) (l := rest)
  unfold quoted
  cases hrest : rest.dropWhile (· ≠ '"') with
  | nil =>
    rw [hrest, List.append_nil] at hsplit
    rw [hsplit] at hbody ⊢
    exact Or.inr ⟨hbody, rfl⟩
  | cons quote after =>
    have hquote : quote = '"' := by
      have hhead := List.head?_dropWhile_not (· ≠ '"') rest
      rw [hrest] at hhead
      simpa using hhead
    subst hquote
    refine Or.inl ⟨Formed.token (Lexeme.string hbody), ?_⟩
    rw [← hsplit, hrest]
    exact List.mem_append_right _ List.mem_cons_self

/-- What is cut off is well-formed, or a character that begins nothing, or a string that no quote
closes. -/
theorem cut_cases (c : Char) (rest : List Char) :
    (cut c rest).1.Formed ∨
      (c ∉ specials ∧ ¬ Digit c ∧ ¬ Letter c ∧ cut c rest = (.unexpected c, rest)) ∨
      (c = '"' ∧ '"' ∉ rest ∧ cut c rest = (.unterminated ('"' :: rest), [])) := by
  unfold cut
  split
  · next kind hkind =>
    exact Or.inl (Formed.token (Lexeme.mark (mem_marks_of_punctuation hkind)))
  · next hpunctuation =>
    split
    · next single double hoperator => exact Or.inl (formed_operator hoperator)
    · next hoperator =>
      split
      · exact Or.inl formed_slash
      · next hslash =>
        split
        · next hblank => exact Or.inl (formed_blank hblank)
        · next hblank =>
          split
          · exact Or.inl Formed.newline
          · next hnewline =>
            split
            · next hquote =>
              obtain ⟨hformed, -⟩ | ⟨hopen, hquoted⟩ := quoted_cases rest
              · exact Or.inl hformed
              · exact Or.inr (Or.inr ⟨hquote, hopen, hquoted⟩)
            · next hquote =>
              split
              · next hdigit => exact Or.inl (formed_number (isDigit_iff.mp hdigit))
              · next hdigit =>
                split
                · next hletter => exact Or.inl (formed_word (isWordStart_iff.mp hletter))
                · next hletter =>
                  rw [isDigit_iff] at hdigit
                  rw [isWordStart_iff] at hletter
                  refine Or.inr (Or.inl ⟨?_, hdigit, hletter, rfl⟩)
                  intro hspecial
                  -- all branches for these characters were passed by
                  have hall : specials.all fun d => (TokenKind.ofPunctuation? d).isSome ||
                      (TokenKind.ofOperatorStart? d).isSome || d = '/' || isBlank d || d = '\n' ||
                      d = '"' := by decide
                  have hbegins := List.all_eq_true.mp hall c hspecial
                  simp [hpunctuation, hoperator, hslash, hblank, hnewline, hquote] at hbegins

end Cut

end Segment

end ScriptLang
