import ScriptLang.Double.Decimal
import ScriptLang.Json.Writer
import ScriptLang.Proofs.Double.Ratio

namespace ScriptLang.JsonValue

/-- What holds of all characters in a text is decided along the text, not over all characters. -/
scoped instance (priority := high) {p : Char → Prop} [DecidablePred p] (text : List Char) :
    Decidable (∀ c ∈ text, p c) :=
  List.decidableBAll p text

def IsSpace (c : Char) : Prop := c ∈ [' ', '\t', '\n', '\r']

instance (c : Char) : Decidable (IsSpace c) := inferInstanceAs (Decidable (c ∈ _))

section Numbers

structure Digits (text : List Char) : Prop where
  ne_nil : text ≠ []
  isDigit : ∀ c ∈ text, c.isDigit

/-- The digits in front of the point, where no zero stands before other digits. -/
structure Whole (text : List Char) : Prop extends Digits text where
  least : text.head? = some '0' → text = ['0']

inductive Fraction : List Char → List Char → Prop
  | none : Fraction [] []
  | some {digits : List Char} (h : Digits digits) : Fraction digits ('.' :: digits)

inductive Scale : Int → List Char → Prop
  | none : Scale 0 []
  | up {mark : Char} {sign digits : List Char} (hm : mark ∈ ['e', 'E']) (hs : sign ∈ [[], ['+']])
    (hd : Digits digits) : Scale (Double.ofDigitChars digits) (mark :: (sign ++ digits))
  | down {mark : Char} {digits : List Char} (hm : mark ∈ ['e', 'E']) (hd : Digits digits) :
    Scale (-Double.ofDigitChars digits) (mark :: '-' :: digits)

def signChars (negative : Bool) : List Char := if negative then ['-'] else []

def signed (negative : Bool) (magnitude : Nat) : Int := if negative then -magnitude else magnitude

inductive SpellsNumber : JsonValue → List Char → Prop
  | integer (negative : Bool) {whole : List Char} (hw : Whole whole) :
    SpellsNumber (.integer (signed negative (Double.ofDigitChars whole)))
      (signChars negative ++ whole)
  | number (negative : Bool) {whole digits fraction tail : List Char} {scale : Int}
    (hw : Whole whole) (hf : Fraction digits fraction) (hs : Scale scale tail)
    (hne : fraction ++ tail ≠ []) :
    SpellsNumber
      (.number (.ofScientific negative (Double.ofDigitChars (whole ++ digits))
        (scale - digits.length)))
      (signChars negative ++ (whole ++ (fraction ++ tail)))

end Numbers

section Strings

def escapes : List (Char × Char) :=
  [('"', '"'), ('\\', '\\'), ('/', '/'), ('b', '\x08'), ('f', '\x0c'), ('n', '\n'), ('r', '\r'),
   ('t', '\t')]

def hexValue? (c : Char) : Option Nat :=
  if '0' ≤ c ∧ c ≤ '9' then some (c.toNat - '0'.toNat)
  else if 'a' ≤ c ∧ c ≤ 'f' then some (c.toNat - 'a'.toNat + 10)
  else if 'A' ≤ c ∧ c ≤ 'F' then some (c.toNat - 'A'.toNat + 10)
  else none

def unit? (a b c d : Char) : Option Nat := do
  return (← hexValue? a) * 0x1000 + (← hexValue? b) * 0x100 + (← hexValue? c) * 0x10 +
    (← hexValue? d)

/-- What stands between the quotes of a string, for the code units of its characters. -/
inductive SpellsUnits : List Nat → List Char → Prop
  | nil : SpellsUnits [] []
  | plain {c : Char} {units : List Nat} {text : List Char} (hc : ' ' ≤ c) (hquote : c ≠ '"')
    (hslash : c ≠ '\\') (h : SpellsUnits units text) :
    SpellsUnits (codeUnits c ++ units) (c :: text)
  | escape {letter c : Char} {units : List Nat} {text : List Char} (he : (letter, c) ∈ escapes)
    (h : SpellsUnits units text) : SpellsUnits (codeUnits c ++ units) ('\\' :: letter :: text)
  | unit {a b c d : Char} {unit : Nat} {units : List Nat} {text : List Char}
    (hu : unit? a b c d = some unit) (h : SpellsUnits units text) :
    SpellsUnits (unit :: units) ('\\' :: 'u' :: a :: b :: c :: d :: text)

inductive SpellsString : String → List Char → Prop
  | quoted {value : String} {text : List Char}
    (h : SpellsUnits (value.toList.flatMap codeUnits) text) :
    SpellsString value ('"' :: (text ++ ['"']))

end Strings

/-- A value, a field of an object, or what stands between the brackets of an array or of an object
that is not empty. -/
inductive Phrase where
  | value (value : JsonValue)
  | items (items : List JsonValue)
  | field (field : String × JsonValue)
  | fields (fields : List (String × JsonValue))

/-- The texts of a phrase, without blanks around them. -/
inductive Spells : Phrase → List Char → Prop
  | null : Spells (.value .null) ['n', 'u', 'l', 'l']
  | true : Spells (.value (.bool true)) ['t', 'r', 'u', 'e']
  | false : Spells (.value (.bool false)) ['f', 'a', 'l', 's', 'e']
  | number {value : JsonValue} {text : List Char} (h : SpellsNumber value text) :
    Spells (.value value) text
  | string {value : String} {text : List Char} (h : SpellsString value text) :
    Spells (.value (.string value)) text
  | emptyArray {blanks : List Char} (hb : ∀ c ∈ blanks, IsSpace c) :
    Spells (.value (.array [])) ('[' :: (blanks ++ [']']))
  | array {items : List JsonValue} {before text after : List Char}
    (hb : ∀ c ∈ before, IsSpace c) (h : Spells (.items items) text) (ha : ∀ c ∈ after, IsSpace c) :
    Spells (.value (.array items)) ('[' :: (before ++ (text ++ (after ++ [']']))))
  | emptyObject {blanks : List Char} (hb : ∀ c ∈ blanks, IsSpace c) :
    Spells (.value (.object [])) ('\x7b' :: (blanks ++ ['\x7d']))
  | object {fields : List (String × JsonValue)} {before text after : List Char}
    (hb : ∀ c ∈ before, IsSpace c) (h : Spells (.fields fields) text)
    (ha : ∀ c ∈ after, IsSpace c) :
    Spells (.value (.object fields)) ('\x7b' :: (before ++ (text ++ (after ++ ['\x7d']))))
  | lastItem {item : JsonValue} {text : List Char} (h : Spells (.value item) text) :
    Spells (.items [item]) text
  | moreItems {item : JsonValue} {items : List JsonValue} {text before after text' : List Char}
    (h : Spells (.value item) text) (hb : ∀ c ∈ before, IsSpace c) (ha : ∀ c ∈ after, IsSpace c)
    (hs : Spells (.items items) text') :
    Spells (.items (item :: items)) (text ++ (before ++ ',' :: (after ++ text')))
  | field {name : String} {value : JsonValue} {label before after text : List Char}
    (hn : SpellsString name label) (hb : ∀ c ∈ before, IsSpace c) (ha : ∀ c ∈ after, IsSpace c)
    (h : Spells (.value value) text) :
    Spells (.field (name, value)) (label ++ (before ++ ':' :: (after ++ text)))
  | lastField {field : String × JsonValue} {text : List Char} (h : Spells (.field field) text) :
    Spells (.fields [field]) text
  | moreFields {field : String × JsonValue} {fields : List (String × JsonValue)}
    {text before after text' : List Char} (h : Spells (.field field) text)
    (hb : ∀ c ∈ before, IsSpace c) (ha : ∀ c ∈ after, IsSpace c)
    (hs : Spells (.fields fields) text') :
    Spells (.fields (field :: fields)) (text ++ (before ++ ',' :: (after ++ text')))

inductive IsDocument : JsonValue → List Char → Prop
  | document {value : JsonValue} {before text after : List Char} (hb : ∀ c ∈ before, IsSpace c)
    (h : Spells (.value value) text) (ha : ∀ c ∈ after, IsSpace c) :
    IsDocument value (before ++ (text ++ after))

end ScriptLang.JsonValue
