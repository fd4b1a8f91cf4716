import ScriptLang.Double.Decimal
import ScriptLang.Token

namespace ScriptLang

/-- A piece of a source: a token, something that is skipped, or something that is no token. -/
inductive Segment where
  | token (kind : TokenKind) (literal : Literal) (text : List Char)
  | blank (char : Char)
  | newline
  | comment (text : List Char)
  | unexpected (char : Char)
  | unterminated (text : List Char)
  deriving DecidableEq

namespace Segment

def text : Segment → List Char
  | .token _ _ text => text
  | .blank char => [char]
  | .newline => ['\n']
  | .comment text => text
  | .unexpected char => [char]
  | .unterminated text => text

def newlines (segment : Segment) : Nat := segment.text.count '\n'

def isBlank (c : Char) : Bool := c = ' ' || c = '\t' || c = '\r'

def isWordStart (c : Char) : Bool := c.isAlpha || c = '_'

def isWordRest (c : Char) : Bool := isWordStart c || c.isDigit

/-- An operator of one character, or of two when an equals sign follows. -/
def operator (single double : TokenKind) (c : Char) : List Char → Segment × List Char
  | '=' :: rest => (.token double .null [c, '='], rest)
  | rest => (.token single .null [c], rest)

/-- A slash, or a comment up to the end of its line. -/
def slash : List Char → Segment × List Char
  | '/' :: rest => (.comment ('/' :: '/' :: rest.takeWhile (· ≠ '\n')), rest.dropWhile (· ≠ '\n'))
  | rest => (.token .slash .null ['/'], rest)

/-- A string whose opening quote is already read; nothing is left of a source that does not close
it. -/
def quoted (rest : List Char) : Segment × List Char :=
  let body := rest.takeWhile (· ≠ '"')
  match rest.dropWhile (· ≠ '"') with
  | [] => (.unterminated ('"' :: body), [])
  | quote :: rest =>
    (.token .string (.string (String.ofList body)) ('"' :: (body ++ [quote])), rest)

def fraction : List Char → List Char × List Char
  | '.' :: c :: rest =>
    if c.isDigit then ('.' :: c :: rest.takeWhile Char.isDigit, rest.dropWhile Char.isDigit)
    else ([], '.' :: c :: rest)
  | rest => ([], rest)

def number (c : Char) (rest : List Char) : Segment × List Char :=
  let whole := c :: rest.takeWhile Char.isDigit
  let (fraction, rest) := fraction (rest.dropWhile Char.isDigit)
  -- the fraction begins with its point
  let value := Double.ofDecimal false whole (fraction.drop 1)
  (.token .number (.number value) (whole ++ fraction), rest)

def word (c : Char) (rest : List Char) : Segment × List Char :=
  let text := c :: rest.takeWhile isWordRest
  let kind := TokenKind.ofWord text
  (.token kind kind.wordLiteral text, rest.dropWhile isWordRest)

/-- The first segment of a source that begins with `c`, and what follows it. -/
def cut (c : Char) (rest : List Char) : Segment × List Char :=
  match TokenKind.ofPunctuation? c with
  | some kind => (.token kind .null [c], rest)
  | none =>
    match TokenKind.ofOperatorStart? c with
    | some (single, double) => operator single double c rest
    | none =>
      if c = '/' then slash rest
      else if isBlank c then (.blank c, rest)
      else if c = '\n' then (.newline, rest)
      else if c = '"' then quoted rest
      else if c.isDigit then number c rest
      else if isWordStart c then word c rest
      else (.unexpected c, rest)

theorem text_operator (single double : TokenKind) (c : Char) (rest : List Char) :
    (operator single double c rest).1.text ++ (operator single double c rest).2 = c :: rest := by
  unfold operator
  split <;> rfl

theorem text_slash (rest : List Char) : (slash rest).1.text ++ (slash rest).2 = '/' :: rest := by
  unfold slash
  split <;> simp [text]

theorem text_quoted (rest : List Char) : (quoted rest).1.text ++ (quoted rest).2 = '"' :: rest := by
  have joined := List.takeWhile_append_dropWhile (p := (· ≠ '"')) (l := rest)
  unfold quoted
  split
  · next h => rw [h] at joined; simpa [text] using joined
  · next h => rw [h] at joined; simpa [text] using joined

theorem fraction_append (rest : List Char) : (fraction rest).1 ++ (fraction rest).2 = rest := by
  unfold fraction
  split
  · split <;> simp
  · rfl

theorem text_number (c : Char) (rest : List Char) :
    (number c rest).1.text ++ (number c rest).2 = c :: rest := by
  simp [number, text, fraction_append]

theorem text_word (c : Char) (rest : List Char) :
    (word c rest).1.text ++ (word c rest).2 = c :: rest := by
  simp [word, text]

/-- Cutting off a segment loses nothing. -/
theorem text_cut (c : Char) (rest : List Char) :
    (cut c rest).1.text ++ (cut c rest).2 = c :: rest := by
  unfold cut
  split
  · rfl
  · split
    · exact text_operator _ _ c rest
    · split
      · next h => rw [h]; exact text_slash rest
      · split
        · rfl
        · split
          · next h => rw [h]; rfl
          · split
            · next h => rw [h]; exact text_quoted rest
            · split
              · exact text_number c rest
              · split
                · exact text_word c rest
                · rfl

theorem text_cut_ne_nil (c : Char) (rest : List Char) : (cut c rest).1.text ≠ [] := by
  unfold cut operator slash quoted number word
  repeat' split
  all_goals simp [text]

theorem length_cut_lt (c : Char) (rest : List Char) :
    (cut c rest).2.length < (c :: rest).length := by
  have whole := congrArg List.length (text_cut c rest)
  have positive := List.length_pos_iff.mpr (text_cut_ne_nil c rest)
  rw [List.length_append] at whole
  omega

def ofSource : List Char → List Segment
  | [] => []
  | c :: rest => (cut c rest).1 :: ofSource (cut c rest).2
termination_by source => source.length
decreasing_by exact length_cut_lt c rest

/-- Each segment with the line on which it ends, counted from the line before the first one. -/
def withLines (line : Int) : List Segment → List (Segment × Int)
  | [] => []
  | segment :: rest =>
    let line := line + segment.newlines
    (segment, line) :: withLines line rest

end Segment

end ScriptLang
