import ScriptLang.Proofs.Json.Numbers
import ScriptLang.Proofs.Json.Reader

namespace ScriptLang.JsonValue

def IsAscii (text : List Char) : Prop := ∀ c ∈ text, c.toNat < 0x80

instance (text : List Char) : Decidable (IsAscii text) :=
  inferInstanceAs (Decidable (∀ c ∈ text, c.toNat < 0x80))

section Numbers

variable {text text' : List Char}

theorem IsAscii.append (h : IsAscii text) (h' : IsAscii text') : IsAscii (text ++ text') :=
  List.forall_mem_append.mpr ⟨h, h'⟩

theorem IsAscii.cons {c : Char} (hc : c.toNat < 0x80) (h : IsAscii text) : IsAscii (c :: text) :=
  List.forall_mem_cons.mpr ⟨hc, h⟩

theorem isAscii_blanks (h : ∀ c ∈ text, IsSpace c) : IsAscii text := by
  have hall : IsAscii [' ', '\t', '\n', '\r'] := by decide
  exact fun c hc => hall c (h c hc)

theorem Digits.isAscii (h : Digits text) : IsAscii text := by
  intro c hc
  obtain ⟨-, hle⟩ := Char.isDigit_iff_toNat.mp (h.isDigit c hc)
  exact hle.trans_lt (by decide)

theorem Fraction.isAscii {digits : List Char} (h : Fraction digits text) : IsAscii text := by
  cases h with
  | none => exact List.forall_mem_nil _
  | some hd => exact .cons (by decide) hd.isAscii

theorem Scale.isAscii {scale : Int} (h : Scale scale text) : IsAscii text := by
  have hmarks : IsAscii ['e', 'E'] := by decide
  have hsigns : ∀ sign ∈ [[], ['+']], IsAscii sign := by decide
  cases h with
  | none => exact List.forall_mem_nil _
  | up hm hs hd => exact .cons (hmarks _ hm) (.append (hsigns _ hs) hd.isAscii)
  | down hm hd => exact .cons (hmarks _ hm) (.cons (by decide) hd.isAscii)

theorem SpellsNumber.isAscii {value : JsonValue} (h : SpellsNumber value text) : IsAscii text := by
  have hsigns : ∀ negative, IsAscii (signChars negative) := by decide
  cases h with
  | integer negative hw => exact .append (hsigns negative) hw.toDigits.isAscii
  | number negative hw hf hs =>
    exact .append (hsigns negative) (.append hw.toDigits.isAscii (.append hf.isAscii hs.isAscii))

end Numbers

section Strings

theorem codeUnits_lt (c : Char) : ∀ unit ∈ codeUnits c, unit < 0x10000 := by
  have hvalid : c.toNat < 0xd800 ∨ 0xdfff < c.toNat ∧ c.toNat < 0x110000 := c.valid
  unfold codeUnits
  dsimp only
  split
  case isTrue hsmall => exact List.forall_mem_singleton.mpr hsmall
  case isFalse =>
    refine List.forall_mem_cons.mpr ⟨?_, List.forall_mem_singleton.mpr ?_⟩ <;> omega

theorem hexValue?_digitChar (n : Nat) : hexValue? (Nat.digitChar (n % 16)) = some (n % 16) ∧
    (Nat.digitChar (n % 16)).toNat < 0x80 := by
  have hall : ∀ k < 16, hexValue? (Nat.digitChar k) = some k ∧ (Nat.digitChar k).toNat < 0x80 := by
    decide
  exact hall _ (Nat.mod_lt _ (by decide))

theorem isAscii_escapeUnit (unit : Nat) : IsAscii (escapeUnit unit) := by
  unfold escapeUnit
  intro c hc
  simp only [List.mem_cons, List.not_mem_nil, or_false] at hc
  obtain rfl | rfl | rfl | rfl | rfl | rfl := hc
  · decide
  · decide
  · exact (hexValue?_digitChar _).2
  · exact (hexValue?_digitChar _).2
  · exact (hexValue?_digitChar _).2
  · exact (hexValue?_digitChar _).2

variable {units : List Nat} {text : List Char}

theorem SpellsUnits.escapeUnit {unit : Nat} (hunit : unit < 0x10000) (h : SpellsUnits units text) :
    SpellsUnits (unit :: units) (JsonValue.escapeUnit unit ++ text) := by
  refine .unit ?_ h
  unfold unit?
  simp only [fun n => (hexValue?_digitChar n).1, Option.bind_eq_bind, Option.bind_some]
  exact congrArg some (by omega)

theorem SpellsUnits.escapeUnits {escaped : List Nat} (hescaped : ∀ unit ∈ escaped, unit < 0x10000)
    (h : SpellsUnits units text) :
    SpellsUnits (escaped ++ units) (escaped.flatMap JsonValue.escapeUnit ++ text) := by
  induction escaped with
  | nil => exact h
  | cons unit escaped ih =>
    obtain ⟨hunit, hescaped⟩ := List.forall_mem_cons.mp hescaped
    rw [List.flatMap_cons, List.append_assoc]
    exact .escapeUnit hunit (ih hescaped)

/-- A character is escaped by a letter or by its code units, or it stands for itself. -/
theorem escapeChar_cases (c : Char) :
    (∃ letter, (letter, c) ∈ escapes ∧ letter.toNat < 0x80 ∧ escapeChar c = ['\\', letter]) ∨
      (' ' ≤ c ∧ c ≤ '~' ∧ c ≠ '"' ∧ c ≠ '\\' ∧ escapeChar c = [c]) ∨
      escapeChar c = (codeUnits c).flatMap JsonValue.escapeUnit := by
  by_cases hletter : c ∈ ['"', '\\', '\n', '\r', '\t', '\x08', '\x0c']
  · have hall : ∀ c ∈ ['"', '\\', '\n', '\r', '\t', '\x08', '\x0c'], ∃ entry ∈ escapes,
        entry.2 = c ∧ entry.1.toNat < 0x80 ∧ escapeChar c = ['\\', entry.1] := by decide
    obtain ⟨⟨letter, c⟩, hmem, rfl, hascii, hescape⟩ := hall c hletter
    exact .inl ⟨letter, hmem, hascii, hescape⟩
  · simp only [List.mem_cons, List.not_mem_nil, or_false, not_or] at hletter
    obtain ⟨hquote, hslash, hnewline, hreturn, htab, hback, hfeed⟩ := hletter
    unfold escapeChar
    rw [if_neg hquote, if_neg hslash, if_neg hnewline, if_neg hreturn, if_neg htab, if_neg hback,
      if_neg hfeed]
    split
    case isTrue hprintable => exact .inr (.inl ⟨hprintable.1, hprintable.2, hquote, hslash, rfl⟩)
    case isFalse => exact .inr (.inr rfl)

theorem isAscii_escapeChar (c : Char) : IsAscii (escapeChar c) := by
  obtain ⟨letter, -, hletter, hescape⟩ | ⟨-, hc, -, -, hescape⟩ | hescape := escapeChar_cases c
  · rw [hescape]
    exact .cons (by decide) (.cons hletter (List.forall_mem_nil _))
  · have htilde : c.toNat ≤ '~'.toNat := hc
    rw [hescape]
    exact List.forall_mem_singleton.mpr (htilde.trans_lt (by decide))
  · rw [hescape]
    intro d hd
    obtain ⟨unit, -, hd⟩ := List.mem_flatMap.mp hd
    exact isAscii_escapeUnit unit d hd

theorem SpellsUnits.escapeChar (c : Char) (h : SpellsUnits units text) :
    SpellsUnits (codeUnits c ++ units) (JsonValue.escapeChar c ++ text) := by
  obtain ⟨letter, hmem, -, hescape⟩ | ⟨hc, -, hquote, hslash, hescape⟩ | hescape :=
    escapeChar_cases c
  · rw [hescape]
    exact .escape hmem h
  · rw [hescape]
    exact .plain hc hquote hslash h
  · rw [hescape]
    exact .escapeUnits (codeUnits_lt c) h

theorem spellsUnits_flatMap (value : List Char) :
    SpellsUnits (value.flatMap codeUnits) (value.flatMap escapeChar) := by
  induction value with
  | nil => exact .nil
  | cons c value ih => exact .escapeChar c ih

theorem toList_quote (value : String) :
    (quote value).toList = '"' :: (value.toList.flatMap escapeChar ++ ['"']) := by
  unfold quote
  rw [String.toList_ofList, List.cons_append]

/-- A string is written as one. -/
theorem spellsString_quote (value : String) : SpellsString value (quote value).toList := by
  rw [toList_quote]
  exact .quoted (spellsUnits_flatMap _)

theorem isAscii_quote (value : String) : IsAscii (quote value).toList := by
  rw [toList_quote]
  refine .cons (by decide) (.append (fun c hc => ?_) (by decide))
  obtain ⟨d, -, hc⟩ := List.mem_flatMap.mp hc
  exact isAscii_escapeChar d c hc

end Strings

section Values

mutual

def IsFinite : JsonValue → Prop
  | number value => value.isFinite
  | array items => AreFinite items
  | object fields => HaveFinite fields
  | null | bool _ | integer _ | string _ => True

def AreFinite : List JsonValue → Prop
  | [] => True
  | item :: rest => item.IsFinite ∧ AreFinite rest

def HaveFinite : List (String × JsonValue) → Prop
  | [] => True
  | (_, value) :: rest => value.IsFinite ∧ HaveFinite rest

end

/-- A text of the phrase in ASCII. -/
structure Writes (phrase : Phrase) (text : List Char) : Prop where
  spells : Spells phrase text
  isAscii : IsAscii text

/-- What stands between items is blank behind the comma, and so is what stands around them. -/
structure Spacing.IsBlank (spacing : Spacing) : Prop where
  separator : ∃ blanks, spacing.separator.toList = ',' :: blanks ∧ ∀ c ∈ blanks, IsSpace c
  opening : ∀ c ∈ spacing.opening.toList, IsSpace c
  closing : ∀ c ∈ spacing.closing.toList, IsSpace c

theorem isBlank_at (indent : Option Nat) (depth : Nat) : (Spacing.at indent depth).IsBlank := by
  cases indent with
  | none =>
    have hcomma : ", ".toList = [',', ' '] := by decide
    have hempty : ∀ c ∈ "".toList, IsSpace c := by decide
    exact ⟨⟨[' '], hcomma, by decide⟩, hempty, hempty⟩
  | some width =>
    have hline (depth : Nat) :
        ∀ c ∈ ("\n" ++ String.ofList (List.replicate (width * depth) ' ')).toList, IsSpace c := by
      have hnewline : ∀ c ∈ "\n".toList, IsSpace c := by decide
      rw [String.toList_append]
      refine List.forall_mem_append.mpr ⟨hnewline, fun c hc => ?_⟩
      rw [String.toList_ofList] at hc
      rw [List.eq_of_mem_replicate hc]
      decide
    have hcomma : ",".toList = [','] := by decide
    refine ⟨⟨_, ?_, hline (depth + 1)⟩, hline (depth + 1), hline depth⟩
    unfold Spacing.at
    rw [String.toList_append, hcomma, List.singleton_append]

theorem Writes.of_number {value : JsonValue} {text : List Char} (h : SpellsNumber value text) :
    Writes (.value value) text :=
  ⟨.number h, h.isAscii⟩

theorem writes_numberText {value : Double} (h : value.isFinite) :
    Writes (.value (.number value)) (numberText value).toList := by
  have htext : numberText value = value.text := by
    cases value with
    | nan | infinity => cases h
    | finite => rfl
  rw [htext]
  exact .of_number (spellsNumber_text h)

section Members

variable {spacing : Spacing}

theorem toList_enclose (spacing : Spacing) (left right : String) {texts : List String}
    (hne : texts ≠ []) : (enclose spacing left right texts).toList =
      left.toList ++ (spacing.opening.toList ++
        ((spacing.separator.intercalate texts).toList ++ (spacing.closing.toList ++
          right.toList))) := by
  unfold enclose
  rw [if_neg (mt List.isEmpty_iff.mp hne)]
  simp only [String.toList_append, List.append_assoc]

theorem Spacing.IsBlank.isAscii_enclosed (hs : spacing.IsBlank) {left right text : List Char}
    (hleft : IsAscii left) (hright : IsAscii right) (h : IsAscii text) :
    IsAscii (left ++ (spacing.opening.toList ++ (text ++ (spacing.closing.toList ++ right)))) :=
  .append hleft (.append (isAscii_blanks hs.opening)
    (.append h (.append (isAscii_blanks hs.closing) hright)))

theorem Writes.array {items : List JsonValue} {texts : List String} (hs : spacing.IsBlank)
    (hne : texts ≠ [])
    (h : Writes (.items items) (spacing.separator.intercalate texts).toList) :
    Writes (.value (.array items)) (enclose spacing "[" "]" texts).toList := by
  have hleft : "[".toList = ['['] := by decide
  have hright : "]".toList = [']'] := by decide
  rw [toList_enclose _ _ _ hne, hleft, hright]
  exact ⟨.array hs.opening h.spells hs.closing,
    hs.isAscii_enclosed (by decide) (by decide) h.isAscii⟩

theorem Writes.object {fields : List (String × JsonValue)} {texts : List String}
    (hs : spacing.IsBlank) (hne : texts ≠ [])
    (h : Writes (.fields fields) (spacing.separator.intercalate texts).toList) :
    Writes (.value (.object fields)) (enclose spacing "\x7b" "\x7d" texts).toList := by
  have hleft : "\x7b".toList = ['\x7b'] := by decide
  have hright : "\x7d".toList = ['\x7d'] := by decide
  rw [toList_enclose _ _ _ hne, hleft, hright]
  exact ⟨.object hs.opening h.spells hs.closing,
    hs.isAscii_enclosed (by decide) (by decide) h.isAscii⟩

theorem Writes.field (name : String) {value : JsonValue} {text : String}
    (h : Writes (.value value) text.toList) :
    Writes (.field (name, value)) (quote name ++ ": " ++ text).toList := by
  simp only [String.toList_append, List.append_assoc]
  exact ⟨.field (spellsString_quote name) (List.forall_mem_nil _)
      (show ∀ c ∈ [' '], IsSpace c by decide) h.spells,
    .append (isAscii_quote name) (.append (by decide) h.isAscii)⟩

theorem Writes.moreItems {item : JsonValue} {items : List JsonValue} {text text' : String}
    (hs : spacing.IsBlank) (h : Writes (.value item) text.toList)
    (h' : Writes (.items items) text'.toList) :
    Writes (.items (item :: items)) (text ++ spacing.separator ++ text').toList := by
  obtain ⟨blanks, hseparator, hblanks⟩ := hs.separator
  rw [String.toList_append, String.toList_append, List.append_assoc, hseparator]
  exact ⟨.moreItems h.spells (List.forall_mem_nil _) hblanks h'.spells,
    .append h.isAscii (.cons (by decide) (.append (isAscii_blanks hblanks) h'.isAscii))⟩

theorem Writes.moreFields {field : String × JsonValue} {fields : List (String × JsonValue)}
    {text text' : String} (hs : spacing.IsBlank) (h : Writes (.field field) text.toList)
    (h' : Writes (.fields fields) text'.toList) :
    Writes (.fields (field :: fields)) (text ++ spacing.separator ++ text').toList := by
  obtain ⟨blanks, hseparator, hblanks⟩ := hs.separator
  rw [String.toList_append, String.toList_append, List.append_assoc, hseparator]
  exact ⟨.moreFields h.spells (List.forall_mem_nil _) hblanks h'.spells,
    .append h.isAscii (.cons (by decide) (.append (isAscii_blanks hblanks) h'.isAscii))⟩

end Members

theorem Writes.of_word {value : JsonValue} (word : String) {text : List Char}
    (hword : word.toList = text) (h : Spells (.value value) text) (hascii : IsAscii text) :
    Writes (.value value) word.toList := by
  rw [hword]
  exact ⟨h, hascii⟩

mutual

/-- The text of a value whose numbers are finite. -/
theorem writes_renderAt (indent : Option Nat) (depth : Nat) (value : JsonValue)
    (h : value.IsFinite) : Writes (.value value) (renderAt indent depth value).toList := by
  cases value with
  | null => exact .of_word "null" (by decide) .null (by decide)
  | bool value =>
    cases value with
    | true => exact .of_word "true" (by decide) .true (by decide)
    | false => exact .of_word "false" (by decide) .false (by decide)
  | integer value => exact .of_number (spellsNumber_integer value)
  | number value => exact writes_numberText h
  | string value => exact ⟨.string (spellsString_quote value), isAscii_quote value⟩
  | array items =>
    cases items with
    | nil => exact .of_word "[]" (by decide) (.emptyArray (List.forall_mem_nil IsSpace)) (by decide)
    | cons item rest =>
      have hs := isBlank_at indent depth
      exact .array hs (List.cons_ne_nil _ _)
        (writes_renderItems indent (depth + 1) (item :: rest) h hs (List.cons_ne_nil _ _))
  | object fields =>
    cases fields with
    | nil =>
      exact .of_word "\x7b\x7d" (by decide) (.emptyObject (List.forall_mem_nil IsSpace)) (by decide)
    | cons field rest =>
      have hs := isBlank_at indent depth
      exact .object hs (List.cons_ne_nil _ _)
        (writes_renderFields indent (depth + 1) (field :: rest) h hs (List.cons_ne_nil _ _))

theorem writes_renderItems (indent : Option Nat) (depth : Nat) (items : List JsonValue)
    (h : AreFinite items) {spacing : Spacing} (hs : spacing.IsBlank) (hne : items ≠ []) :
    Writes (.items items)
      (spacing.separator.intercalate (renderItems indent depth items)).toList := by
  cases items with
  | nil => exact absurd rfl hne
  | cons item rest =>
    have hitem := writes_renderAt indent depth item h.1
    cases rest with
    | nil =>
      rw [renderItems, renderItems, String.intercalate_singleton]
      exact ⟨.lastItem hitem.spells, hitem.isAscii⟩
    | cons next rest =>
      have hrest := writes_renderItems indent depth (next :: rest) h.2 hs (List.cons_ne_nil _ _)
      rw [renderItems, renderItems, String.intercalate_cons_cons]
      exact .moreItems hs hitem hrest

theorem writes_renderFields (indent : Option Nat) (depth : Nat) (fields : List (String × JsonValue))
    (h : HaveFinite fields) {spacing : Spacing} (hs : spacing.IsBlank) (hne : fields ≠ []) :
    Writes (.fields fields)
      (spacing.separator.intercalate (renderFields indent depth fields)).toList := by
  cases fields with
  | nil => exact absurd rfl hne
  | cons field rest =>
    obtain ⟨name, value⟩ := field
    have hfield := (writes_renderAt indent depth value h.1).field name
    cases rest with
    | nil =>
      rw [renderFields, renderFields, String.intercalate_singleton]
      exact ⟨.lastField hfield.spells, hfield.isAscii⟩
    | cons next rest =>
      obtain ⟨name', value'⟩ := next
      have hrest := writes_renderFields indent depth ((name', value') :: rest) h.2 hs
        (List.cons_ne_nil _ _)
      rw [renderFields, renderFields, String.intercalate_cons_cons]
      exact .moreFields hs hfield hrest

end

/-- The text of a value is well-formed, in ASCII, and read as the value. -/
theorem render_spec (indent : Option Nat) {value : JsonValue} (h : value.IsFinite) :
    IsAscii (value.render indent).toList ∧ IsDocument value (value.render indent).toList ∧
      read? (value.render indent) = some value := by
  obtain ⟨hspells, hascii⟩ := writes_renderAt indent 0 value h
  have hdocument := IsDocument.document (List.forall_mem_nil _) hspells (List.forall_mem_nil _)
  rw [List.append_nil, List.nil_append] at hdocument
  exact ⟨hascii, hdocument, hdocument.read?⟩

end Values

end ScriptLang.JsonValue
