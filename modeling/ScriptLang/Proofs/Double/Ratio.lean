import Mathlib.Algebra.Order.Field.Power
import Mathlib.Data.Rat.Cast.Order
import Mathlib.Tactic.FieldSimp
import Mathlib.Tactic.Linarith
import Mathlib.Tactic.NormNum
import Mathlib.Tactic.Positivity
import Mathlib.Tactic.Ring
import ScriptLang.Double.Shortest

namespace ScriptLang.Double

section Quotients

variable {base num den : Nat} {exponent k : Int}

theorem powRatio_spec (hbase : 0 < base) (exponent : Int) :
    0 < (powRatio base exponent).1 ∧ 0 < (powRatio base exponent).2 ∧
      ((powRatio base exponent).1 : ℚ) / (powRatio base exponent).2 = (base : ℚ) ^ exponent := by
  unfold powRatio
  split
  case isTrue h =>
    obtain ⟨n, rfl⟩ := Int.eq_ofNat_of_zero_le h
    refine ⟨Nat.pow_pos hbase, Nat.one_pos, ?_⟩
    simp
  case isFalse h =>
    obtain ⟨n, rfl⟩ : ∃ n : Nat, exponent = -n := ⟨(-exponent).toNat, by omega⟩
    refine ⟨Nat.one_pos, Nat.pow_pos (by simpa using hbase), ?_⟩
    simp

theorem powLe_iff (hbase : 0 < base) (hden : 0 < den) :
    powLe base exponent num den ↔ (base : ℚ) ^ exponent ≤ num / den := by
  obtain ⟨ha, hb, hvalue⟩ := powRatio_spec hbase exponent
  unfold powLe
  rw [decide_eq_true_iff, ← hvalue, div_le_div_iff₀ (by positivity) (by positivity)]
  norm_cast

/-- The logarithm of a quotient is that of its terms, up to one. -/
theorem floorLog2_spec (hnum : 0 < num) (hden : 0 < den) :
    (2 : ℚ) ^ floorLog2 num den ≤ num / den ∧ (num / den : ℚ) < 2 ^ (floorLog2 num den + 1) := by
  have hnum₁ : ((2 ^ num.log2 : Nat) : ℚ) ≤ num := by
    exact_mod_cast Nat.log2_self_le hnum.ne'
  have hnum₂ : (num : ℚ) < ((2 ^ (num.log2 + 1) : Nat) : ℚ) := by
    exact_mod_cast Nat.lt_log2_self
  have hden₁ : ((2 ^ den.log2 : Nat) : ℚ) ≤ den := by
    exact_mod_cast Nat.log2_self_le hden.ne'
  have hden₂ : (den : ℚ) < ((2 ^ (den.log2 + 1) : Nat) : ℚ) := by
    exact_mod_cast Nat.lt_log2_self
  have hpos : (0 : ℚ) < den := by exact_mod_cast hden
  push_cast at hnum₁ hnum₂ hden₁ hden₂
  rw [← zpow_natCast] at hnum₁ hnum₂ hden₁ hden₂
  have hlow : (2 : ℚ) ^ ((num.log2 : Int) - den.log2 - 1) ≤ num / den := by
    rw [le_div_iff₀ hpos]
    calc (2 : ℚ) ^ ((num.log2 : Int) - den.log2 - 1) * den
        ≤ 2 ^ ((num.log2 : Int) - den.log2 - 1) * 2 ^ ((den.log2 + 1 : Nat) : Int) := by gcongr
      _ = 2 ^ (num.log2 : Int) := by
        rw [← zpow_add₀ two_ne_zero]
        congr 1
        push_cast
        ring
      _ ≤ num := hnum₁
  have hhigh : (num / den : ℚ) < 2 ^ ((num.log2 : Int) - den.log2 + 1) := by
    rw [div_lt_iff₀ hpos]
    calc (num : ℚ) < 2 ^ ((num.log2 + 1 : Nat) : Int) := hnum₂
      _ = 2 ^ ((num.log2 : Int) - den.log2 + 1) * 2 ^ (den.log2 : Int) := by
        rw [← zpow_add₀ two_ne_zero]
        congr 1
        push_cast
        ring
      _ ≤ 2 ^ ((num.log2 : Int) - den.log2 + 1) * den := by gcongr
  have hle : powLe 2 ((num.log2 : Int) - den.log2) num den ↔
      ((2 : Nat) : ℚ) ^ ((num.log2 : Int) - den.log2) ≤ num / den := powLe_iff Nat.two_pos hden
  unfold floorLog2
  dsimp only
  split
  case isTrue h => exact ⟨by exact_mod_cast hle.mp h, hhigh⟩
  case isFalse h =>
    rw [hle, not_le] at h
    refine ⟨hlow, ?_⟩
    rw [sub_add_cancel]
    exact_mod_cast h

theorem floorLog2_eq (hnum : 0 < num) (hden : 0 < den) (hlow : (2 : ℚ) ^ k ≤ num / den)
    (hhigh : (num / den : ℚ) < 2 ^ (k + 1)) : floorLog2 num den = k := by
  obtain ⟨hlow', hhigh'⟩ := floorLog2_spec hnum hden
  have hle := (zpow_lt_zpow_iff_right₀ one_lt_two).mp (hlow.trans_lt hhigh')
  have hge := (zpow_lt_zpow_iff_right₀ one_lt_two).mp (hlow'.trans_lt hhigh)
  omega

/-- A rounded quotient is within a half of the quotient, and within less unless it is even. -/
theorem roundQuotient_spec (num : Nat) (hden : 0 < den) :
    2 * roundQuotient num den * den ≤ 2 * num + den ∧
      2 * num ≤ (2 * roundQuotient num den + 1) * den ∧
      (roundQuotient num den % 2 = 0 ∨ 2 * roundQuotient num den * den < 2 * num + den ∧
        2 * num < (2 * roundQuotient num den + 1) * den) := by
  have hmod := Nat.mod_lt num hden
  have hsplit := Nat.div_add_mod num den
  unfold roundQuotient
  generalize num / den = below at *
  generalize num % den = left at *
  subst hsplit
  have hnext : 2 * (below + 1) * den = 2 * (den * below) + 2 * den := by ring
  have hhalf : (2 * below + 1) * den = 2 * (den * below) + den := by ring
  have hhalf' : (2 * (below + 1) + 1) * den = 2 * (den * below) + 3 * den := by ring
  have hbelow : 2 * below * den = 2 * (den * below) := by ring
  dsimp only
  split_ifs <;> omega

/-- What is at most a half above a quotient is no greater than what is at most a half below it, if
a half goes to even numbers only. -/
theorem le_of_within_half {q s : Nat} (hden : 0 < den) (hlow : 2 * s * den ≤ 2 * num + den)
    (hhigh : 2 * num ≤ (2 * q + 1) * den) (hs : s % 2 = 0 ∨ 2 * s * den < 2 * num + den)
    (hq : q % 2 = 0 ∨ 2 * num < (2 * q + 1) * den) : s ≤ q := by
  by_contra hlt
  have hmul := Nat.mul_le_mul_right den (Nat.succ_le_of_lt (not_le.mp hlt))
  rw [Nat.succ_mul] at hmul
  have heven : s % 2 = 0 := hs.resolve_right fun h => by linarith
  have heven' : q % 2 = 0 := hq.resolve_right fun h => by linarith
  have hle : s ≤ q + 1 := Nat.le_of_mul_le_mul_right (by linarith : s * den ≤ (q + 1) * den) hden
  omega

/-- A natural number within a half of a quotient is what it rounds to, if the half itself is
excluded or goes to an even number. -/
theorem roundQuotient_eq {s : Nat} (hden : 0 < den) (hlow : 2 * s * den ≤ 2 * num + den)
    (hhigh : 2 * num ≤ (2 * s + 1) * den)
    (hends : s % 2 = 0 ∨ 2 * s * den < 2 * num + den ∧ 2 * num < (2 * s + 1) * den) :
    roundQuotient num den = s := by
  obtain ⟨hlow', hhigh', hends'⟩ := roundQuotient_spec num hden
  apply le_antisymm
  · exact le_of_within_half hden hlow' hhigh (hends'.imp_right And.left) (hends.imp_right And.right)
  · exact le_of_within_half hden hlow hhigh' (hends.imp_right And.left) (hends'.imp_right And.right)

/-- The same with the quotient counted in units that are a quotient themselves. -/
theorem roundQuotient_of_near {a b s : Nat} (hden : 0 < den) (ha : 0 < a) (hb : 0 < b)
    (hlow : (2 * s - 1) * (a / b : ℚ) ≤ 2 * (num / den))
    (hhigh : 2 * (num / den : ℚ) ≤ (2 * s + 1) * (a / b))
    (hends : s % 2 = 0 ∨ (2 * s - 1) * (a / b : ℚ) < 2 * (num / den) ∧
      2 * (num / den : ℚ) < (2 * s + 1) * (a / b)) :
    roundQuotient (num * b) (den * a) = s := by
  have hden' : (0 : ℚ) < den := by exact_mod_cast hden
  have hb' : (0 : ℚ) < b := by exact_mod_cast hb
  simp only [mul_div_assoc'] at hlow hhigh hends
  rw [div_le_div_iff₀ hb' hden'] at hlow
  rw [div_le_div_iff₀ hden' hb'] at hhigh
  rw [div_lt_div_iff₀ hb' hden', div_lt_div_iff₀ hden' hb'] at hends
  refine roundQuotient_eq (Nat.mul_pos hden ha) ?_ ?_ (hends.imp_right fun h => ⟨?_, ?_⟩)
  · have : (2 * s * (den * a) : ℚ) ≤ 2 * (num * b) + den * a := by linarith
    exact_mod_cast this
  · have : (2 * (num * b) : ℚ) ≤ (2 * s + 1) * (den * a) := by linarith
    exact_mod_cast this
  · have : (2 * s * (den * a) : ℚ) < 2 * (num * b) + den * a := by linarith [h.1]
    exact_mod_cast this
  · have : (2 * (num * b) : ℚ) < (2 * s + 1) * (den * a) := by linarith [h.2]
    exact_mod_cast this

end Quotients

/-- The interval in which a value lies that is measured in these units. -/
def Interval.Contains (i : Interval) (unit value : ℚ) : Prop :=
  if i.closed then i.low * unit ≤ value ∧ value ≤ i.high * unit
  else i.low * unit < value ∧ value < i.high * unit

section Rounding

variable {significand num den : Nat} {exponent : Int} {value unit : ℚ}

theorem Interval.low_around (hpos : 0 < significand) (exponent : Int) :
    (4 * significand - 2 : ℚ) ≤ (around significand exponent).low ∧
      (significand = leadingBit → -1074 < exponent →
        ((around significand exponent).low : ℚ) = 4 * significand - 1) := by
  have hone : 1 ≤ 4 * significand := by omega
  have htwo : 2 ≤ 4 * significand := by omega
  unfold around
  dsimp only
  split
  case isTrue h =>
    push_cast [Nat.cast_sub hone]
    exact ⟨by linarith, fun _ _ => rfl⟩
  case isFalse h =>
    push_cast [Nat.cast_sub htwo]
    exact ⟨le_rfl, fun hs he => absurd ⟨hs, he⟩ h⟩

/-- What is in the interval around a number is at most half its last place away, and at most a
quarter below a power of two. -/
theorem Interval.Contains.near (h : (around significand exponent).Contains unit value)
    (hpos : 0 < significand) (hunit : 0 < unit) :
    (4 * significand - 2) * unit ≤ value ∧ value ≤ (4 * significand + 2) * unit ∧
      (significand % 2 = 0 ∨
        (4 * significand - 2) * unit < value ∧ value < (4 * significand + 2) * unit) ∧
      (significand = leadingBit → -1074 < exponent → (4 * significand - 1) * unit ≤ value) := by
  obtain ⟨hlow, hsharp⟩ := low_around hpos exponent
  have hscaled := mul_le_mul_of_nonneg_right hlow hunit.le
  have hhigh : ((around significand exponent).high : ℚ) = 4 * significand + 2 := by
    simp [around]
  unfold Contains at h
  rw [hhigh] at h
  split at h
  case isTrue heven =>
    refine ⟨hscaled.trans h.1, h.2, .inl (of_decide_eq_true heven), fun hs he => ?_⟩
    rw [← hsharp hs he]
    exact h.1
  case isFalse =>
    refine ⟨hscaled.trans h.1.le, h.2.le, .inr ⟨hscaled.trans_lt h.1, h.2⟩, fun hs he => ?_⟩
    rw [← hsharp hs he]
    exact h.1.le

theorem Interval.Contains.pos (h : (around significand exponent).Contains unit value)
    (hpos : 0 < significand) (hunit : 0 < unit) : 0 < value := by
  obtain ⟨hlow, -⟩ := h.near hpos hunit
  have hone : (1 : ℚ) ≤ significand := by exact_mod_cast hpos
  exact lt_of_lt_of_le (mul_pos (by linarith) hunit) hlow

/-- Rounding at a known place. A significand of 54 bits counts as one of 53 at the next place. -/
theorem ofRatio_at_place (hnum : 0 < num) (hden : 0 < den)
    (hplace : max (-1074) (floorLog2 num den - 52) = exponent)
    (hlow : (2 * significand - 1) * (2 : ℚ) ^ exponent ≤ 2 * (num / den))
    (hhigh : 2 * (num / den : ℚ) ≤ (2 * significand + 1) * 2 ^ exponent)
    (hends : significand % 2 = 0 ∨ (2 * significand - 1) * (2 : ℚ) ^ exponent < 2 * (num / den) ∧
      2 * (num / den : ℚ) < (2 * significand + 1) * 2 ^ exponent) (negative : Bool) :
    ofRatio negative num den =
      if significand = 2 * leadingBit then ofParts negative leadingBit (exponent + 1)
      else ofParts negative significand exponent := by
  obtain ⟨ha, hb, hvalue⟩ := powRatio_spec Nat.two_pos exponent
  push_cast at hvalue
  rw [← hvalue] at hlow hhigh hends
  have hround := roundQuotient_of_near hden ha hb hlow hhigh hends
  unfold ofRatio
  rw [if_neg hnum.ne', hplace]
  dsimp only
  rw [hround]

theorem two_zpow_add (exponent : Int) (n : Nat) :
    (2 : ℚ) ^ (exponent - 2 + n) = 2 ^ (exponent - 2) * 2 ^ n := by
  rw [zpow_add₀ two_ne_zero, zpow_natCast]

/-- Half a last place above a significand of 53 bits is not the next power of two yet. -/
theorem floorLog2_lt_of_le (hnum : 0 < num) (hden : 0 < den) (hlt : significand < 2 * leadingBit)
    (hhigh : (num / den : ℚ) ≤ (4 * significand + 2) * 2 ^ (exponent - 2)) :
    floorLog2 num den < exponent + 53 := by
  obtain ⟨hlog, -⟩ := floorLog2_spec hnum hden
  have hunit : (0 : ℚ) < 2 ^ (exponent - 2) := by positivity
  have hbits : (significand + 1 : ℚ) ≤ 2 ^ 53 := by
    have hnat : significand + 1 ≤ 2 ^ 53 := hlt
    exact_mod_cast hnat
  rw [← zpow_lt_zpow_iff_right₀ (one_lt_two : (1 : ℚ) < 2)]
  refine hlog.trans_lt (hhigh.trans_lt ?_)
  rw [show exponent + 53 = exponent - 2 + (55 : Nat) by push_cast; ring, two_zpow_add, mul_comm]
  exact mul_lt_mul_of_pos_left (by linarith) hunit

/-- What is a quarter of a last place below a power of two, or less, rounds up to it. -/
theorem ofRatio_below_power (h : Canonical leadingBit exponent) (hnum : 0 < num) (hden : 0 < den)
    (hleast : -1074 < exponent)
    (hlow : (4 * 2 ^ 52 - 1) * 2 ^ (exponent - 2) ≤ (num / den : ℚ))
    (hless : (num / den : ℚ) < 2 ^ (exponent - 2) * 2 ^ 54) (negative : Bool) :
    ofRatio negative num den = .finite negative leadingBit exponent h := by
  have hunit : (0 : ℚ) < 2 ^ (exponent - 2) := by positivity
  have hlog : floorLog2 num den = exponent + 51 := by
    refine floorLog2_eq hnum hden ?_ ?_
    · rw [show exponent + 51 = exponent - 2 + (53 : Nat) by push_cast; ring, two_zpow_add]
      linarith
    · rw [show exponent + 51 + 1 = exponent - 2 + (54 : Nat) by push_cast; ring, two_zpow_add]
      exact hless
  have hplace : max (-1074) (floorLog2 num den - 52) = exponent - 1 := by omega
  have hpower : (2 : ℚ) ^ (exponent - 1) = 2 * 2 ^ (exponent - 2) := by
    rw [show exponent - 1 = exponent - 2 + (1 : Nat) by push_cast; ring, two_zpow_add]
    ring
  have htwice : ((2 * leadingBit : Nat) : ℚ) = 2 ^ 53 := by norm_num [leadingBit]
  rw [ofRatio_at_place hnum hden hplace (by rw [hpower, htwice]; linarith)
    (by rw [hpower, htwice]; linarith) (.inl (by decide)) negative, if_pos rfl, ofParts,
    sub_add_cancel, dif_pos h]

/-- A quotient in the interval around a positive number rounds to that number. -/
theorem ofRatio_of_contains (h : Canonical significand exponent) (hpos : 0 < significand)
    (hnum : 0 < num) (hden : 0 < den)
    (hinside : (Interval.around significand exponent).Contains (2 ^ (exponent - 2)) (num / den))
    (negative : Bool) :
    ofRatio negative num den = .finite negative significand exponent h := by
  obtain ⟨hlt, hleast, -, hnormal⟩ := id h
  have hunit : (0 : ℚ) < 2 ^ (exponent - 2) := by positivity
  obtain ⟨hlow, hhigh, hends, hsharp⟩ := hinside.near hpos hunit
  obtain ⟨-, hlog⟩ := floorLog2_spec hnum hden
  have hbelow := floorLog2_lt_of_le hnum hden hlt hhigh
  by_cases hcase : exponent = -1074 ∨ (2 : ℚ) ^ (exponent + 52) ≤ num / den
  · have hplace : max (-1074) (floorLog2 num den - 52) = exponent := by
      obtain rfl | hle := hcase
      · omega
      · have := (zpow_lt_zpow_iff_right₀ (one_lt_two : (1 : ℚ) < 2)).mp (hle.trans_lt hlog)
        omega
    have hpower : (2 : ℚ) ^ exponent = 4 * 2 ^ (exponent - 2) := by
      rw [show exponent = exponent - 2 + (2 : Nat) by push_cast; ring, two_zpow_add]
      ring_nf
    rw [ofRatio_at_place hnum hden hplace (by rw [hpower]; linarith) (by rw [hpower]; linarith)
      (hends.imp_right fun h => by rw [hpower]; constructor <;> linarith) negative,
      if_neg hlt.ne, ofParts, dif_pos h]
  · -- only below a power of two can a value in the interval be below the first place
    obtain ⟨hne, hless⟩ := not_or.mp hcase
    rw [not_le, show exponent + 52 = exponent - 2 + (54 : Nat) by push_cast; ring, two_zpow_add]
      at hless
    have hleading : (leadingBit : ℚ) = 2 ^ 52 := by norm_num [leadingBit]
    obtain rfl : significand = leadingBit := by
      refine le_antisymm ?_ (hnormal.resolve_right hne)
      have hcount : (4 * significand - 2 : ℚ) < 2 ^ 54 := by
        rw [← mul_lt_mul_iff_left₀ hunit]
        linarith
      have hlast : (significand : ℚ) < leadingBit + 1 := by
        rw [hleading]
        linarith
      exact Nat.lt_succ_iff.mp (by exact_mod_cast hlast)
    have hquarter := hsharp rfl (by omega)
    rw [hleading] at hquarter
    exact ofRatio_below_power h hnum hden (by omega) hquarter hless negative

end Rounding

def ofScientific (negative : Bool) (digits : Nat) (exponent : Int) : Double :=
  let (p, q) := powRatio 10 exponent
  ofRatio negative (digits * p) q

theorem ofScientific_zero (negative : Bool) (exponent : Int) :
    ofScientific negative 0 exponent = zero negative := by
  unfold ofScientific ofRatio
  simp

theorem ofScientific_of_contains {significand digits : Nat} {exponent scale : Int}
    (h : Canonical significand exponent) (hpos : 0 < significand)
    (hinside : (Interval.around significand exponent).Contains (2 ^ (exponent - 2))
      (digits * 10 ^ scale)) (negative : Bool) :
    ofScientific negative digits scale = .finite negative significand exponent h := by
  obtain ⟨hp, hq, hvalue⟩ := powRatio_spec (show 0 < 10 by decide) scale
  push_cast at hvalue
  have hdigits : 0 < digits := by
    exact_mod_cast pos_of_mul_pos_left (hinside.pos hpos (by positivity)) (by positivity)
  refine ofRatio_of_contains h hpos (Nat.mul_pos hdigits hp) hq ?_ negative
  push_cast
  rw [mul_div_assoc, hvalue]
  exact hinside

end ScriptLang.Double
