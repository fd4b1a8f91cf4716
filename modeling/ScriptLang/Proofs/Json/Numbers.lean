import ScriptLang.Proofs.Double.Shortest
import ScriptLang.Proofs.Json.Grammar

namespace ScriptLang

def Double.isFinite : Double → Bool
  | .finite .. => true
  | .nan | .infinity _ => false

namespace JsonValue

section Digits

variable {digits : List Char} {n : Nat}

theorem ofDigitChars_append_zeros (digits : List Char) (count : Nat) :
    Double.ofDigitChars (digits ++ Double.zeros count) =
      Double.ofDigitChars digits * 10 ^ count := by
  change Nat.ofDigitChars 10 (digits ++ List.replicate count '0') 0 =
    Nat.ofDigitChars 10 digits 0 * _
  rw [Nat.ofDigitChars_append, Nat.ofDigitChars_replicate_zero, mul_comm]

theorem ofDigitChars_zeros_append (count : Nat) (digits : List Char) :
    Double.ofDigitChars (Double.zeros count ++ digits) = Double.ofDigitChars digits := by
  change Nat.ofDigitChars 10 (List.replicate count '0' ++ digits) 0 = Nat.ofDigitChars 10 digits 0
  rw [Nat.ofDigitChars_append, Nat.ofDigitChars_replicate_zero, mul_zero]

theorem ofDigitChars_toDigits (n : Nat) : Double.ofDigitChars (Nat.toDigits 10 n) = n :=
  Nat.ofDigitChars_ten_toDigits

theorem digits_toDigits (n : Nat) : Digits (Nat.toDigits 10 n) :=
  ⟨Nat.toDigits_ne_nil, fun _ hc => Nat.isDigit_of_mem_toDigits (by decide) (by decide) hc⟩

/-- A positive number is written without a zero in front. -/
theorem head?_toDigits_ne (hn : 0 < n) : (Nat.toDigits 10 n).head? ≠ some '0' := by
  induction n using Nat.base_induction 10 (by decide) with
  | single m hm =>
    rw [Nat.toDigits_of_lt_base hm]
    simpa using hn.ne'
  | digit m k hk hm ih =>
    rw [← Nat.toDigits_append_toDigits (by decide) hm hk,
      List.head?_append_of_ne_nil _ Nat.toDigits_ne_nil]
    exact ih hm

theorem whole_toDigits (n : Nat) : Whole (Nat.toDigits 10 n) := by
  refine ⟨digits_toDigits n, fun h => ?_⟩
  obtain rfl | hn := Nat.eq_zero_or_pos n
  · exact Nat.toDigits_zero 10
  · exact absurd h (head?_toDigits_ne hn)

theorem isDigit_zeros (count : Nat) : ∀ c ∈ Double.zeros count, c.isDigit := by
  intro c hc
  rw [List.eq_of_mem_replicate hc]
  rfl

end Digits

theorem toList_signText (negative : Bool) :
    (Double.signText negative).toList = signChars negative := by
  cases negative <;> rfl

/-- An integer is written as one. -/
theorem spellsNumber_integer (value : Int) :
    SpellsNumber (.integer value) (toString value).toList := by
  cases value with
  | ofNat n =>
    have h := SpellsNumber.integer false (whole_toDigits n)
    rw [ofDigitChars_toDigits] at h
    change SpellsNumber (.integer n) n.repr.toList
    rw [Nat.toList_repr]
    exact h
  | negSucc n =>
    have h := SpellsNumber.integer true (whole_toDigits (n + 1))
    rw [ofDigitChars_toDigits] at h
    change SpellsNumber (.integer (Int.negSucc n)) ("-" ++ (n + 1).repr).toList
    rw [String.toList_append, Nat.toList_repr]
    exact h

section Layouts

variable {digits : List Char} {leading : Int} {value : Double} {negative : Bool}

/-- The number has the first of these digits at the power of ten `leading`, whichever way that is
said. -/
def Reads (negative : Bool) (digits : List Char) (leading : Int) (value : Double) : Prop :=
  ∀ (n : Nat) (scale : Int),
    n * (10 : ℚ) ^ scale = Double.ofDigitChars digits * 10 ^ (leading + 1 - digits.length) →
      Double.ofScientific negative n scale = value

theorem whole_take (hd : Digits digits) (hfirst : digits.head? ≠ some '0') {count : Nat}
    (hcount : 0 < count) : Whole (digits.take count) := by
  have hhead : (digits.take count).head? = digits.head? := by
    rw [List.head?_take, if_neg hcount.ne']
  refine ⟨⟨fun hnil => ?_, fun c hc => hd.isDigit c (List.mem_of_mem_take hc)⟩, fun h => ?_⟩
  · rw [hnil] at hhead
    exact hd.ne_nil (List.head?_eq_none_iff.mp hhead.symm)
  · rw [hhead] at h
    exact absurd h hfirst

theorem spells_below_one (hd : Digits digits) (h : Reads negative digits leading value)
    (hleading : leading < 0) :
    SpellsNumber (.number value) (signChars negative ++
      (['0'] ++ ('.' :: (Double.zeros (-leading - 1).toNat ++ digits) ++ []))) := by
  have hzero : Whole ['0'] := whole_toDigits 0
  have hfraction : Digits (Double.zeros (-leading - 1).toNat ++ digits) :=
    ⟨by simp [hd.ne_nil], List.forall_mem_append.mpr ⟨isDigit_zeros _, hd.isDigit⟩⟩
  have hnumber := SpellsNumber.number negative hzero (.some hfraction) .none (by simp)
  rwa [h] at hnumber
  have hdigits : Double.ofDigitChars (['0'] ++ (Double.zeros (-leading - 1).toNat ++ digits)) =
      Double.ofDigitChars digits :=
    (ofDigitChars_zeros_append 1 _).trans (ofDigitChars_zeros_append _ digits)
  rw [hdigits]
  congr 2
  simp [Double.zeros]
  omega

theorem spells_whole (hd : Digits digits) (hfirst : digits.head? ≠ some '0')
    (h : Reads negative digits leading value) (hleading : 0 ≤ leading)
    (hlength : digits.length ≤ leading.toNat + 1) :
    SpellsNumber (.number value) (signChars negative ++
      ((digits ++ Double.zeros (leading.toNat + 1 - digits.length)) ++ (['.', '0'] ++ []))) := by
  have hwhole : Whole (digits ++ Double.zeros (leading.toNat + 1 - digits.length)) := by
    have hhead : (digits ++ Double.zeros (leading.toNat + 1 - digits.length)).head? =
      digits.head? := List.head?_append_of_ne_nil _ hd.ne_nil
    refine ⟨⟨by simp [hd.ne_nil], List.forall_mem_append.mpr ⟨hd.isDigit, isDigit_zeros _⟩⟩, ?_⟩
    rw [hhead]
    exact fun h => absurd h hfirst
  have hfraction : Digits ['0'] := (whole_toDigits 0).toDigits
  have hnumber := SpellsNumber.number negative hwhole (.some hfraction) .none (by simp)
  rwa [h] at hnumber
  have hshift (n count : Nat) :
      ((n * 10 ^ count * 10 ^ 1 : Nat) : ℚ) = n * 10 ^ ((count + 1 : Nat) : Int) := by
    rw [zpow_natCast]
    push_cast
    ring
  rw [show ['0'] = Double.zeros 1 from rfl, ofDigitChars_append_zeros, ofDigitChars_append_zeros,
    hshift, mul_assoc, ← zpow_add₀ (by norm_num)]
  congr 2
  simp [Double.zeros]
  omega

theorem spells_with_point (hd : Digits digits) (hfirst : digits.head? ≠ some '0')
    (h : Reads negative digits leading value) (hleading : 0 ≤ leading)
    (hlength : leading.toNat + 1 < digits.length) :
    SpellsNumber (.number value) (signChars negative ++
      (digits.take (leading.toNat + 1) ++ ('.' :: digits.drop (leading.toNat + 1) ++ []))) := by
  have hwhole : Whole (digits.take (leading.toNat + 1)) := whole_take hd hfirst (Nat.succ_pos _)
  have hfraction : Digits (digits.drop (leading.toNat + 1)) :=
    ⟨by simpa using hlength, fun c hc => hd.isDigit c (List.mem_of_mem_drop hc)⟩
  have hnumber := SpellsNumber.number negative hwhole (.some hfraction) .none (by simp)
  rwa [h] at hnumber
  rw [List.take_append_drop]
  congr 2
  rw [List.length_drop]
  omega

theorem ofDigitChars_paddedDigits (width n : Nat) :
    Double.ofDigitChars (Double.paddedDigits width n) = n := by
  unfold Double.paddedDigits
  rw [ofDigitChars_zeros_append, ofDigitChars_toDigits]

theorem digits_paddedDigits (width n : Nat) : Digits (Double.paddedDigits width n) := by
  unfold Double.paddedDigits
  exact ⟨by simp, List.forall_mem_append.mpr ⟨isDigit_zeros _, (digits_toDigits n).isDigit⟩⟩

/-- An exponent with its sign and two digits or more. -/
theorem scale_paddedDigits (leading : Int) : Scale leading
    ('e' :: ((if leading < 0 then "-" else "+").toList ++
      Double.paddedDigits 2 leading.natAbs)) := by
  have hdigits := digits_paddedDigits 2 leading.natAbs
  split
  case isTrue hneg =>
    have h := Scale.down (show 'e' ∈ ['e', 'E'] by decide) hdigits
    rw [ofDigitChars_paddedDigits, show -(leading.natAbs : Int) = leading by omega] at h
    rw [show "-".toList = ['-'] by decide]
    exact h
  case isFalse hpos =>
    have h := Scale.up (show 'e' ∈ ['e', 'E'] by decide) (show ['+'] ∈ [[], ['+']] by decide)
      hdigits
    rw [ofDigitChars_paddedDigits, show (leading.natAbs : Int) = leading by omega] at h
    rw [show "+".toList = ['+'] by decide]
    exact h

theorem spells_scientific (hd : Digits digits) (hfirst : digits.head? ≠ some '0')
    (h : Reads negative digits leading value) {tail : List Char} (hs : Scale leading tail)
    (htail : tail ≠ []) :
    SpellsNumber (.number value) (signChars negative ++ (digits.take 1 ++
      ((if digits.length ≤ 1 then [] else '.' :: digits.drop 1) ++ tail))) := by
  have hwhole : Whole (digits.take 1) := whole_take hd hfirst Nat.one_pos
  have hfraction : Fraction (digits.drop 1)
      (if digits.length ≤ 1 then [] else '.' :: digits.drop 1) := by
    split
    case isTrue hlength =>
      rw [List.drop_eq_nil_of_le hlength]
      exact .none
    case isFalse hlength =>
      exact .some ⟨fun h => hlength (List.drop_eq_nil_iff.mp h),
        fun c hc => hd.isDigit c (List.mem_of_mem_drop hc)⟩
  have hnumber := SpellsNumber.number negative hwhole hfraction hs (by simp [htail])
  rwa [h] at hnumber
  have hlength : 0 < digits.length := List.length_pos_iff.mpr hd.ne_nil
  rw [List.take_append_drop]
  congr 2
  rw [List.length_drop]
  omega

/-- However digits are laid out, the text says them. -/
theorem spells_arrange (hd : Digits digits) (hfirst : digits.head? ≠ some '0')
    (h : Reads negative digits leading value) :
    SpellsNumber (.number value)
      (signChars negative ++ (Double.plain.arrange digits leading).toList) := by
  unfold Double.Layout.arrange
  split
  case isTrue =>
    split
    -- the point stands before all digits, behind all of them, or between two
    case isTrue hleading =>
      have hspells := spells_below_one hd h hleading
      simpa using hspells
    case isFalse hleading =>
      dsimp only
      split
      case isTrue hlength =>
        have hspells := spells_whole hd hfirst h (not_lt.mp hleading) hlength
        have hending : Double.plain.wholeEnding.toList = ['.', '0'] := by decide
        simpa [hending] using hspells
      case isFalse hlength =>
        have hspells := spells_with_point hd hfirst h (not_lt.mp hleading) (not_le.mp hlength)
        simpa using hspells
  case isFalse =>
    have hspells := spells_scientific hd hfirst h (scale_paddedDigits leading) (by simp)
    have hmark : Double.plain.exponentMark.toList = ['e'] := by decide
    have hwidth : Double.plain.exponentWidth = 2 := rfl
    simpa [hmark, hwidth] using hspells

end Layouts

theorem spellsNumber_zero (negative : Bool) :
    SpellsNumber (.number (Double.zero negative)) (signChars negative ++ ['0', '.', '0']) := by
  have hzero : Whole ['0'] := whole_toDigits 0
  have hnumber := SpellsNumber.number negative hzero (.some hzero.toDigits) .none (by simp)
  rwa [show Double.ofDigitChars (['0'] ++ ['0']) = 0 from rfl, Double.ofScientific_zero] at hnumber

/-- The text of a finite number is a text of it. -/
theorem spellsNumber_text {value : Double} (hfinite : value.isFinite) :
    SpellsNumber (.number value) value.text.toList := by
  cases value with
  | nan | infinity => cases hfinite
  | finite negative significand exponent canonical =>
    cases significand with
    | zero =>
      -- zero has only one exponent
      obtain rfl : exponent = -1074 := canonical.2.2.2.resolve_left (by decide)
      have hending : Double.plain.wholeEnding.toList = ['.', '0'] := by decide
      have hdigit : "0".toList = ['0'] := by decide
      change SpellsNumber (.number (Double.zero negative))
        (Double.signText negative ++ "0" ++ Double.plain.wholeEnding).toList
      rw [String.toList_append, String.toList_append, toList_signText, hdigit, hending,
        List.append_assoc]
      exact spellsNumber_zero negative
    | succ significand =>
      obtain ⟨hpos, -⟩ := Double.shortest_spec canonical (Nat.succ_pos _)
      have hreads : Reads negative
          (Nat.toDigits 10 (Double.shortest (significand + 1) exponent).coefficient)
          ((Double.shortest (significand + 1) exponent).exponent + (Nat.toDigits 10
            (Double.shortest (significand + 1) exponent).coefficient).length - 1)
          (.finite negative (significand + 1) exponent canonical) := by
        intro n scale hvalue
        refine Double.ofScientific_shortest canonical (Nat.succ_pos _) ?_ negative
        rw [hvalue, ofDigitChars_toDigits, sub_add_cancel, add_sub_cancel_right]
        rfl
      have hspells := spells_arrange (digits_toDigits _) (head?_toDigits_ne hpos) hreads
      rw [← toList_signText, ← String.toList_append] at hspells
      exact hspells

end JsonValue

end ScriptLang
