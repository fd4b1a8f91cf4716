import ScriptLang.Proofs.Source.Coverage

namespace ScriptLang.Segment

def breaks : List Char := [' ', '\t', '\r', '\n']

/-- Whether a piece ends in front of this character, wherever it begins. -/
def StopsBefore (d : Char) : Segment → Prop
  | .comment _ => d = '\n'
  | .unterminated _ => False
  | _ => d ∈ breaks

section Cut

variable {c d : Char} {segment : Segment} {rest tail : List Char}

theorem mem_breaks : d ∈ breaks ↔ d = ' ' ∨ d = '\t' ∨ d = '\r' ∨ d = '\n' := by simp [breaks]

theorem StopsBefore.mem_breaks (h : segment.StopsBefore d) : d ∈ breaks := by
  cases segment with
  | comment text =>
    have hd : d = '\n' := h
    rw [hd]
    decide
  | unterminated text => exact absurd h id
  | token kind literal text => exact h
  | blank char => exact h
  | newline => exact h
  | unexpected char => exact h

theorem not_isDigit_of_mem_breaks (h : d ∈ breaks) : d.isDigit = false := by
  obtain rfl | rfl | rfl | rfl := mem_breaks.mp h <;> rfl

theorem not_isWordRest_of_mem_breaks (h : d ∈ breaks) : isWordRest d = false := by
  obtain rfl | rfl | rfl | rfl := mem_breaks.mp h <;> rfl

theorem ne_of_mem_breaks {e : Char} (h : d ∈ breaks) (he : e ∉ breaks) : d ≠ e := by
  intro heq
  rw [heq] at h
  exact he h

theorem takeWhile_stop {p : Char → Bool} (h : p d = false) (rest tail : List Char) :
    (rest ++ d :: tail).takeWhile p = rest.takeWhile p := by
  rw [List.takeWhile_append]
  split
  · next hwhole =>
    rw [List.takeWhile_cons_of_neg (by simp [h]), List.append_nil]
    exact ((List.takeWhile_prefix p).eq_of_length hwhole).symm
  · rfl

theorem dropWhile_stop {p : Char → Bool} (h : p d = false) (rest tail : List Char) :
    (rest ++ d :: tail).dropWhile p = rest.dropWhile p ++ d :: tail := by
  rw [List.dropWhile_append, List.dropWhile_cons_of_neg (by simp [h])]
  split
  · next hnone => rw [List.isEmpty_iff.mp hnone, List.nil_append]
  · rfl

theorem operator_append (single double : TokenKind) (h : d ≠ '=') (rest tail : List Char) :
    operator single double c (rest ++ d :: tail) =
      Prod.map id (· ++ d :: tail) (operator single double c rest) := by
  cases rest with
  | nil => simp [operator, h]
  | cons e rest =>
    by_cases he : e = '='
    · simp [operator, he]
    · simp [operator, he]

theorem slash_append (h : (slash rest).1.StopsBefore d) :
    slash (rest ++ d :: tail) = Prod.map id (· ++ d :: tail) (slash rest) := by
  have hslash := ne_of_mem_breaks (e := '/') h.mem_breaks (by decide)
  cases rest with
  | nil => simp [slash, hslash]
  | cons e rest =>
    by_cases he : e = '/'
    · subst he
      have hd : d = '\n' := h
      have hstop : decide (d ≠ '\n') = false := by simp [hd]
      rw [List.cons_append, slash, takeWhile_stop hstop, dropWhile_stop hstop, slash]
      rfl
    · simp [slash, he]

theorem quoted_append_of_closed (h : ∀ text, (quoted rest).1 ≠ .unterminated text)
    (tail : List Char) : quoted (rest ++ tail) = Prod.map id (· ++ tail) (quoted rest) := by
  obtain ⟨-, hquote⟩ | ⟨-, hopen⟩ := quoted_cases rest
  · obtain ⟨body, after, rfl, hbody⟩ := List.eq_append_cons_of_mem hquote
    rw [List.append_assoc, List.cons_append, quoted_append hbody, quoted_append hbody]
    rfl
  · rw [hopen] at h
    exact absurd rfl (h _)

theorem fraction_append_stop (hdigit : d.isDigit = false) (hpoint : d ≠ '.')
    (rest tail : List Char) :
    fraction (rest ++ d :: tail) = Prod.map id (· ++ d :: tail) (fraction rest) := by
  match rest with
  | [] => simp [fraction, hpoint]
  | [e] =>
    by_cases he : e = '.'
    · simp [fraction, he, hdigit]
    · simp [fraction, he]
  | e :: f :: rest =>
    by_cases he : e = '.'
    · subst he
      rw [List.cons_append, List.cons_append, fraction, fraction]
      by_cases hf : f.isDigit
      · rw [if_pos hf, if_pos hf, takeWhile_stop hdigit, dropWhile_stop hdigit]
        rfl
      · rw [if_neg hf, if_neg hf]
        rfl
    · simp [fraction, he]

theorem number_append (hdigit : d.isDigit = false) (hpoint : d ≠ '.') (rest tail : List Char) :
    number c (rest ++ d :: tail) = Prod.map id (· ++ d :: tail) (number c rest) := by
  unfold number
  rw [takeWhile_stop hdigit, dropWhile_stop hdigit, fraction_append_stop hdigit hpoint]
  rfl

theorem word_append (h : isWordRest d = false) (rest tail : List Char) :
    word c (rest ++ d :: tail) = Prod.map id (· ++ d :: tail) (word c rest) := by
  unfold word
  rw [takeWhile_stop h, dropWhile_stop h]
  rfl

/-- What is cut off a text is cut off it, too, when a character is added before which it stops. -/
theorem cut_append (h : (cut c rest).1.StopsBefore d) :
    cut c (rest ++ d :: tail) = Prod.map id (· ++ d :: tail) (cut c rest) := by
  have hd := h.mem_breaks
  have hdigit := not_isDigit_of_mem_breaks hd
  revert h
  unfold cut
  split
  · exact fun _ => rfl
  · split
    · exact fun _ => operator_append _ _ (ne_of_mem_breaks hd (by decide)) rest tail
    · split
      · exact fun h => slash_append h
      · split
        · exact fun _ => rfl
        · split
          · exact fun _ => rfl
          · split
            -- A string that is open would go on behind the character.
            · intro h
              apply quoted_append_of_closed
              intro text htext
              rw [htext] at h
              exact h
            · split
              · exact fun _ => number_append hdigit (ne_of_mem_breaks hd (by decide)) rest tail
              · split
                · exact fun _ => word_append (not_isWordRest_of_mem_breaks hd) rest tail
                · exact fun _ => rfl

end Cut

end ScriptLang.Segment
