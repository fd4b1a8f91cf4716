import ScriptLang.Literal
import ScriptLang.Proofs.Json.Numbers
import ScriptLang.Proofs.Json.Reader
import ScriptLang.Proofs.Prefix.Forms

namespace ScriptLang

namespace Double

def IsUnsigned : Double → Prop
  | .finite negative _ _ _ => negative = false
  | .nan | .infinity _ => False

instance : DecidablePred IsUnsigned
  | .finite negative _ _ _ => inferInstanceAs (Decidable (negative = false))
  | .nan | .infinity _ => inferInstanceAs (Decidable False)

def negative? : Double → Option Bool
  | .finite negative _ _ _ | .infinity negative => some negative
  | .nan => none

theorem negative?_ofParts (negative : Bool) (significand : Nat) (exponent : Int) :
    (ofParts negative significand exponent).negative? = some negative := by
  unfold ofParts
  split <;> rfl

theorem negative?_ofRatio (negative : Bool) (num den : Nat) :
    (ofRatio negative num den).negative? = some negative := by
  unfold ofRatio
  dsimp only
  split
  · rfl
  · split <;> exact negative?_ofParts negative _ _

variable {value : Double}

theorem IsUnsigned.isFinite (h : value.IsUnsigned) : value.isFinite := by
  cases value with
  | finite => rfl
  | nan | infinity => cases h

theorem IsUnsigned.negative? (h : value.IsUnsigned) : value.negative? = some false := by
  cases value with
  | finite => exact congrArg some h
  | nan | infinity => cases h

/-- A number lies in the interval around it. -/
theorem Interval.contains_middle {significand : Nat} (hpos : 0 < significand) (exponent : Int)
    {unit : ℚ} (hunit : 0 < unit) :
    (Interval.around significand exponent).Contains unit (4 * significand * unit) := by
  have hlow : ((Interval.around significand exponent).low : ℚ) < 4 * significand := by
    exact_mod_cast low_lt_middle hpos
  have hhigh : (4 * significand : ℚ) < (Interval.around significand exponent).high := by
    exact_mod_cast middle_lt_high significand exponent
  have hlow' := mul_lt_mul_of_pos_right hlow hunit
  have hhigh' := mul_lt_mul_of_pos_right hhigh hunit
  unfold Interval.Contains
  split
  · exact ⟨hlow'.le, hhigh'.le⟩
  · exact ⟨hlow', hhigh'⟩

/-- A whole number is the one nearest to the natural number that it is equal to. -/
theorem IsUnsigned.ofRatio_toInt? (h : value.IsUnsigned) {n : Int} (hn : value.toInt? = some n) :
    ∃ m : Nat, n = m ∧ value = ofRatio false m 1 := by
  cases value with
  | nan | infinity => cases h
  | finite negative significand exponent canonical =>
    obtain rfl : negative = false := h
    obtain ⟨ha, hb, hvalue⟩ := powRatio_spec Nat.two_pos exponent
    unfold toInt? at hn
    rcases hratio : powRatio 2 exponent with ⟨a, b⟩
    simp only [hratio] at ha hb hvalue hn
    split at hn
    case isFalse => cases hn
    case isTrue hwhole =>
      refine ⟨significand * a / b, (Option.some.inj hn).symm, ?_⟩
      obtain rfl | hpos := Nat.eq_zero_or_pos significand
      · obtain rfl : exponent = -1074 := canonical.2.2.2.resolve_left (by decide)
        rw [Nat.zero_mul, Nat.zero_div]
        rfl
      · -- the number is in the middle of its own interval, so its integer rounds to it
        have hproduct : significand * a / b * b = significand * a :=
          Nat.div_mul_cancel (Nat.dvd_of_mod_eq_zero hwhole)
        have hnum : 0 < significand * a / b :=
          Nat.pos_of_mul_pos_right (hproduct ▸ Nat.mul_pos hpos ha)
        have hmiddle : ((significand * a / b : Nat) / (1 : Nat) : ℚ) =
            4 * significand * 2 ^ (exponent - 2) := by
          have hb' : (b : ℚ) ≠ 0 := by exact_mod_cast hb.ne'
          have hcast : ((significand * a / b : Nat) : ℚ) * b = significand * a := by
            exact_mod_cast hproduct
          rw [Nat.cast_one, div_one, eq_div_of_mul_eq hb' hcast, mul_div_assoc, hvalue,
            zpow_sub₀ (by norm_num)]
          push_cast
          ring
        symm
        refine ofRatio_of_contains canonical hpos hnum Nat.one_pos ?_ false
        rw [hmiddle]
        exact Interval.contains_middle hpos exponent (by positivity)

end Double

namespace JsonValue

section Numerals

variable {text digits more : List Char}

def IsNumeric (c : Char) : Prop := c.isDigit ∨ c ∈ ['.', 'e', 'E', '+', '-']

instance (c : Char) : Decidable (IsNumeric c) := inferInstanceAs (Decidable (_ ∨ _))

/-- A text that begins with a digit and goes on as numbers do. -/
def IsNumeral (text : List Char) : Prop :=
  ∃ c more, text = c :: more ∧ c.isDigit ∧ ∀ d ∈ more, IsNumeric d

theorem Digits.isNumeral (h : Digits digits) (hmore : ∀ d ∈ more, IsNumeric d) :
    IsNumeral (digits ++ more) := by
  obtain ⟨hne, hdigit⟩ := h
  cases digits with
  | nil => exact absurd rfl hne
  | cons c digits =>
    obtain ⟨hc, hrest⟩ := List.forall_mem_cons.mp hdigit
    exact ⟨c, _, rfl, hc, List.forall_mem_append.mpr ⟨fun d hd => .inl (hrest d hd), hmore⟩⟩

theorem Fraction.isNumeric (h : Fraction digits text) : ∀ c ∈ text, IsNumeric c := by
  cases h with
  | none => exact List.forall_mem_nil _
  | some hd => exact List.forall_mem_cons.mpr ⟨by decide, fun c hc => .inl (hd.isDigit c hc)⟩

theorem Scale.isNumeric {scale : Int} (h : Scale scale text) : ∀ c ∈ text, IsNumeric c := by
  have hmarks : ∀ c ∈ ['e', 'E'], IsNumeric c := by decide
  have hsigns : ∀ sign ∈ [[], ['+']], ∀ c ∈ sign, IsNumeric c := by decide
  cases h with
  | none => exact List.forall_mem_nil _
  | up hm hs hd =>
    exact List.forall_mem_cons.mpr ⟨hmarks _ hm,
      List.forall_mem_append.mpr ⟨hsigns _ hs, fun c hc => .inl (hd.isDigit c hc)⟩⟩
  | down hm hd =>
    exact List.forall_mem_cons.mpr ⟨hmarks _ hm,
      List.forall_mem_cons.mpr ⟨by decide, fun c hc => .inl (hd.isDigit c hc)⟩⟩

theorem IsNumeral.isWord (h : IsNumeral text) : Form.IsWord text := by
  obtain ⟨c, more, rfl, hc, hmore⟩ := h
  have hnone : ∀ d ∈ Form.delimiters, ¬ IsNumeric d := by decide
  refine ⟨List.cons_ne_nil _ _, fun heq => ?_, fun d hd hmem => hnone d hd ?_⟩
  · rw [(List.cons.inj heq).1] at hc
    exact absurd hc (by decide)
  · obtain rfl | hmem := List.mem_cons.mp hmem
    · exact .inl hc
    · exact hmore d hmem

end Numerals

section Texts

variable {value value' : JsonValue} {text : List Char}

theorem SpellsNumber.unique (h : SpellsNumber value text) (h' : SpellsNumber value' text) :
    value = value' := by
  have hstops : Stops [] := nofun
  have hread := readNumber_append h hstops
  rw [readNumber_append h' hstops] at hread
  exact (Prod.mk.inj (Option.some.inj hread)).1.symm

theorem SpellsNumber.isNumeral {number : Double} (h : SpellsNumber (.number number) text)
    (hu : number.IsUnsigned) : IsNumeral text := by
  cases h with
  | @number negative whole digits fraction tail scale hw hf hs =>
    have hsign := hu.negative?
    unfold Double.ofScientific at hsign
    rw [Double.negative?_ofRatio] at hsign
    obtain rfl := Option.some.inj hsign
    exact hw.toDigits.isNumeral (List.forall_mem_append.mpr ⟨hf.isNumeric, hs.isNumeric⟩)

end Texts

end JsonValue

open JsonValue

namespace Literal

variable {value value' : Double}

/-- The text of a number is that of an integer, or says that the number is not whole. -/
theorem text_number_cases (h : value.IsUnsigned) :
    (∃ n : Nat, value = .ofRatio false n 1 ∧ (number value).text = n.repr) ∨
      SpellsNumber (.number value) (number value).text.toList := by
  cases hn : value.toInt? with
  | none =>
    simp only [text, hn]
    exact .inr (spellsNumber_text h.isFinite)
  | some n =>
    obtain ⟨m, rfl, hvalue⟩ := h.ofRatio_toInt? hn
    simp only [text, hn]
    exact .inl ⟨m, hvalue, rfl⟩

theorem isNumeral_number (h : value.IsUnsigned) : IsNumeral (number value).text.toList := by
  obtain ⟨n, -, htext⟩ | hspells := text_number_cases h
  · rw [htext, Nat.toList_repr, ← List.append_nil (Nat.toDigits 10 n)]
    exact (digits_toDigits n).isNumeral (List.forall_mem_nil _)
  · exact hspells.isNumeral h

theorem number_text_inj (h : value.IsUnsigned) (h' : value'.IsUnsigned)
    (heq : (number value).text = (number value').text) : value = value' := by
  -- no text is read as an integer and as a number that is none
  obtain ⟨n, hvalue, htext⟩ | hspells := text_number_cases h
  · obtain ⟨n', hvalue', htext'⟩ | hspells' := text_number_cases h'
    · have hn : n = n' := by
        rw [← ofDigitChars_toDigits n, ← Nat.toList_repr, ← htext, heq, htext', Nat.toList_repr,
          ofDigitChars_toDigits]
      rw [hvalue, hvalue', hn]
    · rw [← heq, htext] at hspells'
      cases (spellsNumber_integer n).unique hspells'
  · obtain ⟨n', hvalue', htext'⟩ | hspells' := text_number_cases h'
    · rw [heq, htext'] at hspells
      cases (spellsNumber_integer n').unique hspells
    · rw [heq] at hspells
      cases hspells.unique hspells'
      rfl

end Literal

end ScriptLang
