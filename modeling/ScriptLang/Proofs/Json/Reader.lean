import ScriptLang.Proofs.Json.Grammar

namespace ScriptLang.JsonValue

section Reader

def skip (text : List Char) : List Char := text.dropWhile fun c => IsSpace c

def readFraction : List Char → List Char × List Char
  | '.' :: rest =>
    let digits := rest.takeWhile Char.isDigit
    if digits = [] then ([], '.' :: rest) else (digits, rest.dropWhile Char.isDigit)
  | rest => ([], rest)

def readSign : List Char → Bool × List Char
  | '-' :: rest => (true, rest)
  | '+' :: rest => (false, rest)
  | rest => (false, rest)

def readScale : List Char → Option Int × List Char
  | [] => (none, [])
  | mark :: rest =>
    let (negative, unsigned) := readSign rest
    let digits := unsigned.takeWhile Char.isDigit
    if mark ∈ ['e', 'E'] ∧ digits ≠ [] then
      (some (signed negative (Double.ofDigitChars digits)), unsigned.dropWhile Char.isDigit)
    else (none, mark :: rest)

def readUnsigned (negative : Bool) (text : List Char) : Option (JsonValue × List Char) :=
  let whole := text.takeWhile Char.isDigit
  if whole = [] ∨ whole.head? = some '0' ∧ whole ≠ ['0'] then none
  else
    let (digits, rest) := readFraction (text.dropWhile Char.isDigit)
    let (scale?, rest) := readScale rest
    if digits = [] ∧ scale? = none then
      some (.integer (signed negative (Double.ofDigitChars whole)), rest)
    else
      some (.number (.ofScientific negative (Double.ofDigitChars (whole ++ digits))
        (scale?.getD 0 - digits.length)), rest)

def readNumber : List Char → Option (JsonValue × List Char)
  | '-' :: rest => readUnsigned true rest
  | text => readUnsigned false text

def readUnits : List Char → Option (List Nat × List Char)
  | [] => none
  | '"' :: rest => some ([], rest)
  | '\\' :: 'u' :: a :: b :: c :: d :: rest => do
    let unit ← unit? a b c d
    let (units, rest) ← readUnits rest
    return (unit :: units, rest)
  | '\\' :: letter :: rest => do
    let c ← escapes.lookup letter
    let (units, rest) ← readUnits rest
    return (codeUnits c ++ units, rest)
  | c :: rest =>
    if c < ' ' ∨ c = '\\' then none
    else do
      let (units, rest) ← readUnits rest
      return (codeUnits c ++ units, rest)

/-- The characters of code units. Beyond the first plane a character has two. -/
def ofUnits? : List Nat → Option (List Char)
  | [] => some []
  | unit :: rest =>
    if 0xd800 ≤ unit ∧ unit < 0xdc00 then
      match rest with
      | [] => none
      | low :: rest =>
        if 0xdc00 ≤ low ∧ low < 0xe000 then do
          return Char.ofNat (0x10000 + (unit - 0xd800) * 0x400 + (low - 0xdc00)) ::
            (← ofUnits? rest)
        else none
    else if 0xdc00 ≤ unit ∧ unit < 0xe000 then none
    else do return Char.ofNat unit :: (← ofUnits? rest)

def readString : List Char → Option (String × List Char)
  | '"' :: rest => do
    let (units, rest) ← readUnits rest
    return (String.ofList (← ofUnits? units), rest)
  | _ => none

def readField (read : List Char → Option (JsonValue × List Char)) (text : List Char) :
    Option ((String × JsonValue) × List Char) := do
  let (name, rest) ← readString text
  match skip rest with
  | ':' :: rest => do
    let (value, rest) ← read (skip rest)
    return ((name, value), rest)
  | _ => none

def readMembers {α : Type} (read : List Char → Option (α × List Char)) (close : Char) :
    Nat → List Char → Option (List α × List Char)
  | 0, _ => none
  | fuel + 1, text => do
    let (member, rest) ← read text
    match skip rest with
    | ',' :: rest => do
      let (members, rest) ← readMembers read close fuel (skip rest)
      return (member :: members, rest)
    | c :: rest => if c = close then return ([member], rest) else none
    | [] => none

/-- A value and what follows it. No text needs more fuel than it has characters. -/
def readValue : Nat → List Char → Option (JsonValue × List Char)
  | 0, _ => none
  | _ + 1, 'n' :: 'u' :: 'l' :: 'l' :: rest => some (.null, rest)
  | _ + 1, 't' :: 'r' :: 'u' :: 'e' :: rest => some (.bool true, rest)
  | _ + 1, 'f' :: 'a' :: 'l' :: 's' :: 'e' :: rest => some (.bool false, rest)
  | _ + 1, '"' :: rest => (readString ('"' :: rest)).map (Prod.map .string id)
  | fuel + 1, '[' :: rest =>
    match skip rest with
    | ']' :: rest => some (.array [], rest)
    | rest => (readMembers (readValue fuel) ']' fuel rest).map (Prod.map .array id)
  | fuel + 1, '\x7b' :: rest =>
    match skip rest with
    | '\x7d' :: rest => some (.object [], rest)
    | rest => (readMembers (readField (readValue fuel)) '\x7d' fuel rest).map (Prod.map .object id)
  | _ + 1, text => readNumber text

/-- The value of a whole text. -/
def read? (text : String) : Option JsonValue :=
  match readValue text.length (skip text.toList) with
  | some (value, rest) => if skip rest = [] then some value else none
  | none => none

end Reader

section Texts

variable {blanks digits rest text tail : List Char} {power : Int}

theorem skip_append (hb : ∀ c ∈ blanks, IsSpace c) (ht : ∀ c ∈ text.head?, ¬ IsSpace c) :
    skip (blanks ++ text) = text := by
  unfold skip
  rw [List.dropWhile_append_of_pos fun c hc => decide_eq_true (hb c hc)]
  cases text with
  | nil => rfl
  | cons c rest => rw [List.dropWhile_cons_of_neg (by simpa using ht c rfl)]

theorem span_digits (hd : Digits digits) (hr : ∀ c ∈ rest.head?, ¬ c.isDigit) :
    (digits ++ rest).takeWhile Char.isDigit = digits ∧
      (digits ++ rest).dropWhile Char.isDigit = rest := by
  rw [List.takeWhile_append_of_pos hd.isDigit, List.dropWhile_append_of_pos hd.isDigit]
  cases rest with
  | nil => exact ⟨List.append_nil _, rfl⟩
  | cons c rest =>
    rw [List.takeWhile_cons_of_neg (hr c rfl), List.dropWhile_cons_of_neg (hr c rfl)]
    exact ⟨List.append_nil _, rfl⟩

/-- What follows a value: nothing, a blank, a comma or a closing bracket. -/
def Stops (rest : List Char) : Prop :=
  ∀ c ∈ rest.head?, c ∈ [' ', '\t', '\n', '\r', ',', ']', '\x7d']

theorem Stops.not_isDigit (h : Stops rest) : ∀ c ∈ rest.head?, ¬ c.isDigit := by
  have hall : ∀ c ∈ [' ', '\t', '\n', '\r', ',', ']', '\x7d'], ¬ c.isDigit := by decide
  exact fun c hc => hall c (h c hc)

/-- What follows the whole part of a number that has no fraction. -/
theorem Stops.after_whole (h : Stops rest) (hs : Scale power tail) :
    ∀ c ∈ (tail ++ rest).head?, ¬ c.isDigit ∧ c ≠ '.' := by
  cases hs with
  | none =>
    have hall : ∀ c ∈ [' ', '\t', '\n', '\r', ',', ']', '\x7d'], ¬ c.isDigit ∧ c ≠ '.' := by decide
    exact fun c hc => hall c (h c hc)
  | up hm | down hm =>
    have hall : ∀ c ∈ ['e', 'E'], ¬ c.isDigit ∧ c ≠ '.' := by decide
    rintro c ⟨⟩
    exact hall _ hm

theorem readSign_append (hd : Digits digits) (rest : List Char) :
    readSign (digits ++ rest) = (false, digits ++ rest) := by
  cases digits with
  | nil => exact absurd rfl hd.ne_nil
  | cons c digits =>
    have hc := hd.isDigit c List.mem_cons_self
    rw [List.cons_append]
    unfold readSign
    split <;> simp_all

theorem readScale_of_sign {mark : Char} {negative : Bool} (hm : mark ∈ ['e', 'E'])
    (hd : Digits digits) (hr : Stops rest) (hs : readSign text = (negative, digits ++ rest)) :
    readScale (mark :: text) = (some (signed negative (Double.ofDigitChars digits)), rest) := by
  obtain ⟨htake, hdrop⟩ := span_digits hd hr.not_isDigit
  rw [readScale, hs]
  dsimp only
  rw [htake, hdrop, if_pos ⟨hm, hd.ne_nil⟩]

/-- An exponent is read to its end. -/
theorem readScale_append (hs : Scale power tail) (hr : Stops rest) : ∃ power?,
    readScale (tail ++ rest) = (power?, rest) ∧ power?.getD 0 = power ∧
      (power? = none ↔ tail = []) := by
  cases hs with
  | none =>
    refine ⟨none, ?_, rfl, by simp⟩
    cases rest with
    | nil => rfl
    | cons c rest =>
      have hall : ∀ c ∈ [' ', '\t', '\n', '\r', ',', ']', '\x7d'], c ∉ ['e', 'E'] := by decide
      have hmark : c ∉ ['e', 'E'] := hall c (hr c rfl)
      rw [List.nil_append, readScale]
      obtain ⟨negative, unsigned⟩ := readSign rest
      exact if_neg fun h => hmark h.1
  | @up mark sign digits hm hsign hd =>
    refine ⟨some (Double.ofDigitChars digits), ?_, rfl, by simp⟩
    have hnone : readSign (sign ++ (digits ++ rest)) = (false, digits ++ rest) := by
      simp only [List.mem_cons, List.not_mem_nil, or_false] at hsign
      obtain rfl | rfl := hsign
      · exact readSign_append hd rest
      · rfl
    rw [List.cons_append, List.append_assoc]
    exact readScale_of_sign hm hd hr hnone
  | @down mark digits hm hd =>
    have hminus : readSign ('-' :: (digits ++ rest)) = (true, digits ++ rest) := rfl
    exact ⟨some (-Double.ofDigitChars digits), readScale_of_sign hm hd hr hminus, rfl, by simp⟩

theorem readFraction_append {fraction : List Char} (hf : Fraction digits fraction)
    (hr : ∀ c ∈ rest.head?, ¬ c.isDigit ∧ c ≠ '.') :
    readFraction (fraction ++ rest) = (digits, rest) := by
  cases hf with
  | none =>
    cases rest with
    | nil => rfl
    | cons c rest =>
      rw [List.nil_append]
      unfold readFraction
      split
      case h_1 heq => exact absurd (List.cons.inj heq).1 (hr c rfl).2
      case h_2 => rfl
  | some hd =>
    obtain ⟨htake, hdrop⟩ := span_digits hd fun c hc => (hr c hc).1
    rw [List.cons_append, readFraction, htake, hdrop, if_neg hd.ne_nil]

theorem readNumber_signed {whole : List Char} (hw : Whole whole) (negative : Bool)
    (rest : List Char) :
    readNumber (signChars negative ++ (whole ++ rest)) = readUnsigned negative (whole ++ rest) := by
  cases negative with
  | true => rfl
  | false =>
    cases whole with
    | nil => exact absurd rfl hw.ne_nil
    | cons c whole =>
      have hc := hw.isDigit c List.mem_cons_self
      change readNumber (c :: (whole ++ rest)) = readUnsigned false (c :: (whole ++ rest))
      unfold readNumber
      split <;> simp_all

theorem readUnsigned_append {whole fraction : List Char} (hw : Whole whole)
    (hf : Fraction digits fraction) (hs : Scale power tail) (hr : Stops rest) (negative : Bool) :
    readUnsigned negative (whole ++ (fraction ++ (tail ++ rest))) =
      some (if fraction ++ tail = [] then .integer (signed negative (Double.ofDigitChars whole))
        else .number (.ofScientific negative (Double.ofDigitChars (whole ++ digits))
          (power - digits.length)), rest) := by
  have hwhole : ∀ c ∈ (fraction ++ (tail ++ rest)).head?, ¬ c.isDigit := by
    cases hf with
    | none => exact fun c hc => (hr.after_whole hs c hc).1
    | some =>
      rintro c ⟨⟩
      decide
  obtain ⟨htake, hdrop⟩ := span_digits hw.toDigits hwhole
  obtain ⟨power?, hpower, rfl, hnone⟩ := readScale_append hs hr
  have hleading : ¬ (whole = [] ∨ whole.head? = some '0' ∧ whole ≠ ['0']) := by
    rintro (h | ⟨h, h'⟩)
    · exact hw.ne_nil h
    · exact h' (hw.least h)
  -- an integer is what has neither a fraction nor an exponent
  have hfraction : digits = [] ↔ fraction = [] := by
    cases hf with
    | none => exact Iff.rfl
    | some hd => exact iff_of_false hd.ne_nil (List.cons_ne_nil _ _)
  unfold readUnsigned
  rw [htake, hdrop, readFraction_append hf (hr.after_whole hs), if_neg hleading]
  dsimp only
  rw [hpower]
  dsimp only
  simp only [hfraction, hnone, List.append_eq_nil_iff]
  split <;> rfl

/-- A number is read to its end. -/
theorem readNumber_append {value : JsonValue} (h : SpellsNumber value text) (hr : Stops rest) :
    readNumber (text ++ rest) = some (value, rest) := by
  cases h with
  | @integer negative whole hw =>
    have hread := readUnsigned_append hw .none .none hr negative
    rw [List.append_assoc, readNumber_signed hw]
    exact hread
  | @number negative whole digits fraction tail scale hw hf hs hne =>
    have hread := readUnsigned_append hw hf hs hr negative
    rw [if_neg hne] at hread
    rw [List.append_assoc, List.append_assoc, List.append_assoc, readNumber_signed hw]
    exact hread

/-- A string is read up to its closing quote. -/
theorem readUnits_append {units : List Nat} (h : SpellsUnits units text) (rest : List Char) :
    readUnits (text ++ '"' :: rest) = some (units, rest) := by
  induction h with
  | nil => rfl
  | @plain c units text hc hquote hslash h ih =>
    have hspecial : ¬ (c < ' ' ∨ c = '\\') := not_or.mpr ⟨Char.not_lt.mpr hc, hslash⟩
    rw [List.cons_append, readUnits, if_neg hspecial, ih]
    · rfl
    · exact hquote
    · exact fun _ _ _ _ _ h => absurd h hslash
    · exact fun _ _ h => absurd h hslash
  | @escape letter c units text he h ih =>
    have hall : ∀ entry ∈ escapes, entry.1 ≠ 'u' ∧ escapes.lookup entry.1 = some entry.2 := by
      decide
    obtain ⟨hletter, hlookup⟩ := hall _ he
    rw [List.cons_append, List.cons_append, readUnits, hlookup, ih]
    · rfl
    · exact fun _ _ _ _ _ h => absurd h hletter
  | @unit a b c d unit units text hu h ih =>
    simp only [List.cons_append]
    rw [readUnits, hu, ih]
    rfl

theorem ofUnits?_codeUnits (c : Char) (units : List Nat) :
    ofUnits? (codeUnits c ++ units) = (ofUnits? units).map (c :: ·) := by
  -- no character is a surrogate itself
  have hvalid : c.toNat < 0xd800 ∨ 0xdfff < c.toNat ∧ c.toNat < 0x110000 := c.valid
  unfold codeUnits
  dsimp only
  split
  case isTrue =>
    rw [List.singleton_append, ofUnits?.eq_def]
    dsimp only
    rw [if_neg (by omega), if_neg (by omega), Char.ofNat_toNat]
    cases ofUnits? units <;> rfl
  case isFalse =>
    have hjoined : 0x10000 + (0xd800 + (c.toNat - 0x10000) / 0x400 - 0xd800) * 0x400 +
        (0xdc00 + (c.toNat - 0x10000) % 0x400 - 0xdc00) = c.toNat := by omega
    rw [List.cons_append, List.singleton_append, ofUnits?, if_pos (by omega), if_pos (by omega),
      hjoined, Char.ofNat_toNat]
    cases ofUnits? units <;> rfl

theorem ofUnits?_flatMap (text : List Char) : ofUnits? (text.flatMap codeUnits) = some text := by
  induction text with
  | nil => rfl
  | cons c text ih => rw [List.flatMap_cons, ofUnits?_codeUnits, ih, Option.map_some]

theorem readString_append {value : String} (h : SpellsString value text) (rest : List Char) :
    readString (text ++ rest) = some (value, rest) := by
  obtain ⟨h⟩ := h
  rw [List.cons_append, List.append_assoc, List.singleton_append, readString, readUnits_append h]
  change (ofUnits? _).bind _ = _
  rw [ofUnits?_flatMap, Option.bind_some, String.ofList_toList]
  rfl

end Texts

section Values

variable {α : Type} {read : List Char → Option (α × List Char)} {close : Char} {fuel : Nat}
  {text rest rest' rest'' blanks : List Char} {member : α} {members : List α}

theorem stops_blanks {c : Char} (hb : ∀ c ∈ blanks, IsSpace c) (hc : c ∈ [',', ']', '\x7d'])
    (rest : List Char) : Stops (blanks ++ c :: rest) := by
  cases blanks with
  | nil =>
    rintro d ⟨⟩
    exact List.mem_append_right [' ', '\t', '\n', '\r'] hc
  | cons b blanks =>
    rintro d ⟨⟩
    exact List.mem_append_left [',', ']', '\x7d'] (hb b List.mem_cons_self)

/-- A number begins with a minus sign or a digit. -/
theorem SpellsNumber.begins {value : JsonValue} (h : SpellsNumber value text) :
    ∃ c rest, text = c :: rest ∧ (c = '-' ∨ c.isDigit) := by
  have hwhole {whole : List Char} (hw : Whole whole) (negative : Bool) (rest : List Char) :
      ∃ c rest', signChars negative ++ (whole ++ rest) = c :: rest' ∧ (c = '-' ∨ c.isDigit) := by
    cases negative with
    | true => exact ⟨'-', _, rfl, .inl rfl⟩
    | false =>
      cases whole with
      | nil => exact absurd rfl hw.ne_nil
      | cons c whole => exact ⟨c, _, rfl, .inr (hw.isDigit c List.mem_cons_self)⟩
  cases h with
  | integer negative hw =>
    have hbegins := hwhole hw negative []
    rwa [List.append_nil] at hbegins
  | number negative hw => exact hwhole hw negative _

/-- No phrase begins with a blank or a closing bracket. -/
theorem Spells.begins {phrase : Phrase} (h : Spells phrase text) :
    ∃ c rest, text = c :: rest ∧ c ∉ [' ', '\t', '\n', '\r', ']', '\x7d'] := by
  induction h with
  | number h =>
    obtain ⟨c, rest, htext, hc⟩ := h.begins
    have hall : ∀ d ∈ [' ', '\t', '\n', '\r', ']', '\x7d'], d ≠ '-' ∧ ¬ d.isDigit := by decide
    exact ⟨c, rest, htext, fun hmem => hc.elim (hall c hmem).1 (hall c hmem).2⟩
  | string h =>
    obtain ⟨h⟩ := h
    exact ⟨'"', _, rfl, by decide⟩
  | field hn =>
    obtain ⟨h⟩ := hn
    exact ⟨'"', _, rfl, by decide⟩
  | moreItems _ _ _ _ ih | moreFields _ _ _ _ ih =>
    obtain ⟨c, rest, rfl, hc⟩ := ih
    exact ⟨c, _, rfl, hc⟩
  | lastItem _ ih | lastField _ ih => exact ih
  | _ => exact ⟨_, _, rfl, by decide⟩

theorem readValue_number {c : Char} (hc : c = '-' ∨ c.isDigit) (fuel : Nat) (rest : List Char) :
    readValue (fuel + 1) (c :: rest) = readNumber (c :: rest) := by
  have hall : ∀ d ∈ ['n', 't', 'f', '"', '[', '\x7b'], d ≠ '-' ∧ ¬ d.isDigit := by decide
  have hother : c ∉ ['n', 't', 'f', '"', '[', '\x7b'] := fun hmem =>
    hc.elim (hall c hmem).1 (hall c hmem).2
  unfold readValue
  split <;> simp_all

/-- Blanks in front of what is no blank itself. -/
theorem skip_blanks {c : Char} (hb : ∀ c ∈ blanks, IsSpace c) (hc : ¬ IsSpace c)
    (rest : List Char) : skip (blanks ++ c :: rest) = c :: rest := by
  refine skip_append hb ?_
  rintro d ⟨⟩
  exact hc

theorem skip_phrase {phrase : Phrase} (h : Spells phrase text) (hb : ∀ c ∈ blanks, IsSpace c)
    (rest : List Char) : skip (blanks ++ (text ++ rest)) = text ++ rest := by
  obtain ⟨c, more, rfl, hc⟩ := h.begins
  exact skip_blanks hb (fun h => hc (List.mem_append_left [']', '\x7d'] h)) _

/-- The last member of an array or an object. -/
theorem readMembers_last (hb : ∀ c ∈ blanks, IsSpace c) (hclose : close ∈ [']', '\x7d'])
    (h : ∀ rest, Stops rest → read (text ++ rest) = some (member, rest)) (count : Nat)
    (rest : List Char) :
    readMembers read close (count + 1) (text ++ (blanks ++ close :: rest)) =
      some ([member], rest) := by
  have hall : ∀ c ∈ [']', '\x7d'], c ≠ ',' ∧ ¬ IsSpace c := by decide
  have hmember := h _ (stops_blanks hb (List.mem_cons_of_mem _ hclose) rest)
  rw [readMembers, hmember, Option.bind_eq_bind, Option.bind_some]
  dsimp only
  rw [skip_blanks hb (hall close hclose).2]
  split
  case h_1 heq => exact absurd (List.cons.inj heq).1 (hall close hclose).1
  case h_2 heq =>
    obtain ⟨rfl, rfl⟩ := List.cons.inj heq
    exact if_pos rfl
  case h_3 heq => cases heq

/-- A member with a comma and others behind it. -/
theorem readMembers_more {phrase : Phrase} {before after text' : List Char} {count : Nat}
    (hs : Spells phrase text') (hb : ∀ c ∈ before, IsSpace c) (ha : ∀ c ∈ after, IsSpace c)
    (h : ∀ rest, Stops rest → read (text ++ rest) = some (member, rest))
    (hm : readMembers read close count (text' ++ rest) = some (members, rest')) :
    readMembers read close (count + 1) (text ++ (before ++ ',' :: (after ++ text')) ++ rest) =
      some (member :: members, rest') := by
  have hmember := h _ (stops_blanks hb (c := ',') (by decide) (after ++ (text' ++ rest)))
  simp only [List.cons_append, List.append_assoc]
  rw [readMembers, hmember, Option.bind_eq_bind, Option.bind_some]
  dsimp only
  rw [skip_blanks hb (by decide)]
  simp only [skip_phrase hs ha, hm]
  rfl

theorem readValue_array {c : Char} {items : List JsonValue} (hs : skip rest = c :: rest')
    (hc : c ≠ ']') (h : readMembers (readValue fuel) ']' fuel (c :: rest') = some (items, rest'')) :
    readValue (fuel + 1) ('[' :: rest) = some (.array items, rest'') := by
  rw [readValue, hs]
  split
  case h_1 heq => exact absurd (List.cons.inj heq).1 hc
  case h_2 => rw [h]; rfl

theorem readValue_object {c : Char} {fields : List (String × JsonValue)}
    (hs : skip rest = c :: rest') (hc : c ≠ '\x7d')
    (h : readMembers (readField (readValue fuel)) '\x7d' fuel (c :: rest') =
      some (fields, rest'')) :
    readValue (fuel + 1) ('\x7b' :: rest) = some (.object fields, rest'') := by
  rw [readValue, hs]
  split
  case h_1 heq => exact absurd (List.cons.inj heq).1 hc
  case h_2 => rw [h]; rfl

/-- A phrase is read to its end, what stands in brackets with the closing one. -/
def Phrase.IsRead : Phrase → List Char → Prop
  | .value item, text => ∀ fuel rest, text.length ≤ fuel → Stops rest →
    readValue fuel (text ++ rest) = some (item, rest)
  | .field member, text => ∀ fuel rest, text.length ≤ fuel → Stops rest →
    readField (readValue fuel) (text ++ rest) = some (member, rest)
  | .items members, text => ∀ fuel count blanks rest, text.length ≤ fuel → text.length < count →
    (∀ c ∈ blanks, IsSpace c) →
      readMembers (readValue fuel) ']' count (text ++ (blanks ++ ']' :: rest)) =
        some (members, rest)
  | .fields members, text => ∀ fuel count blanks rest, text.length ≤ fuel → text.length < count →
    (∀ c ∈ blanks, IsSpace c) →
      readMembers (readField (readValue fuel)) '\x7d' count (text ++ (blanks ++ '\x7d' :: rest)) =
        some (members, rest)

/-- Whatever spells a phrase is read as that phrase. -/
theorem Spells.isRead {phrase : Phrase} (h : Spells phrase text) : phrase.IsRead text := by
  induction h with
  | null | true | false =>
    rintro (_ | fuel) rest hfuel -
    · cases hfuel
    · rfl
  | number h =>
    intro fuel rest hfuel hr
    obtain ⟨c, more, rfl, hc⟩ := h.begins
    cases fuel with
    | zero => cases hfuel
    | succ fuel =>
      rw [List.cons_append, readValue_number hc]
      exact readNumber_append h hr
  | string h =>
    intro fuel rest hfuel _
    have hread := readString_append h rest
    obtain ⟨h⟩ := h
    cases fuel with
    | zero => cases hfuel
    | succ fuel =>
      rw [List.cons_append] at hread ⊢
      rw [readValue, hread]
      rfl
  | @emptyArray blanks hb | @emptyObject blanks hb =>
    rintro (_ | fuel) rest hfuel -
    · cases hfuel
    · rw [List.cons_append, List.append_assoc, List.singleton_append, readValue,
        skip_blanks hb (by decide)]
      rfl
  | @array items before text after hb h ha ih =>
    rintro (_ | fuel) rest hfuel -
    · cases hfuel
    · have hlength : text.length < fuel := by
        simp only [List.length_cons, List.length_append] at hfuel
        omega
      have hitems := ih fuel fuel after rest hlength.le hlength ha
      -- the reader looks for a closing bracket first, and no item begins with one
      have hskip := skip_phrase h hb (after ++ ']' :: rest)
      obtain ⟨c, more, rfl, hc⟩ := h.begins
      simp only [List.cons_append, List.append_assoc, List.nil_append] at hitems hskip ⊢
      exact readValue_array hskip (fun h => hc (by simp [h])) hitems
  | @object fields before text after hb h ha ih =>
    rintro (_ | fuel) rest hfuel -
    · cases hfuel
    · have hlength : text.length < fuel := by
        simp only [List.length_cons, List.length_append] at hfuel
        omega
      have hfields := ih fuel fuel after rest hlength.le hlength ha
      have hskip := skip_phrase h hb (after ++ '\x7d' :: rest)
      obtain ⟨c, more, rfl, hc⟩ := h.begins
      simp only [List.cons_append, List.append_assoc, List.nil_append] at hfields hskip ⊢
      exact readValue_object hskip (fun h => hc (by simp [h])) hfields
  | lastItem h ih | lastField h ih =>
    rintro fuel (_ | count) blanks rest hfuel hcount hblanks
    · cases hcount
    · exact readMembers_last hblanks (by decide) (fun rest => ih fuel rest hfuel) count rest
  | moreItems h hb ha hs ih ihs | moreFields h hb ha hs ih ihs =>
    rintro fuel (_ | count) blanks rest hfuel hcount hblanks
    · cases hcount
    · simp only [List.length_cons, List.length_append] at hfuel hcount
      have hmember := fun rest => ih fuel rest (by omega)
      have hmembers := ihs fuel count blanks rest (by omega) (by omega) hblanks
      exact readMembers_more hs hb ha hmember hmembers
  | @field name value label before after text hn hb ha h ih =>
    intro fuel rest hfuel hr
    simp only [List.length_cons, List.length_append] at hfuel
    have hvalue := ih fuel rest (by omega) hr
    have hname := readString_append hn (before ++ ':' :: (after ++ (text ++ rest)))
    simp only [List.cons_append, List.append_assoc]
    unfold readField
    rw [hname, Option.bind_eq_bind, Option.bind_some]
    dsimp only
    rw [skip_blanks hb (by decide)]
    simp only [skip_phrase h ha, hvalue]
    rfl

/-- A whole text is read as the value that it is a text of. -/
theorem IsDocument.read? {value : JsonValue} {text : String} (h : IsDocument value text.toList) :
    read? text = some value := by
  unfold JsonValue.read?
  rw [← String.length_toList]
  generalize text.toList = chars at h ⊢
  obtain @⟨before, text, after, hb, h, ha⟩ := h
  have hstops : Stops after := by
    cases after with
    | nil => nofun
    | cons c after =>
      rintro d ⟨⟩
      exact List.mem_append_left [',', ']', '\x7d'] (ha c List.mem_cons_self)
  have hlength : text.length ≤ (before ++ (text ++ after)).length := by
    simp only [List.length_append]
    omega
  have hafter : skip after = [] := by
    have hskip : skip (after ++ []) = [] := skip_append ha nofun
    rwa [List.append_nil] at hskip
  rw [skip_phrase h hb, h.isRead _ _ hlength hstops]
  exact if_pos hafter

end Values

end ScriptLang.JsonValue
