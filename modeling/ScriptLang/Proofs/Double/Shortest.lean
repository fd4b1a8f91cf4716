import ScriptLang.Proofs.Double.Ratio

namespace ScriptLang.Double

def Decimal.value (d : Decimal) : ℚ := d.coefficient * 10 ^ d.exponent

section Logarithm

variable {g k : Int} {num den : Nat}

/-- Ten is at most a power of two with a fraction of 31/103 or, below one, 28/93 as its exponent. -/
theorem ten_zpow_le_two_zpow (hk : -2000 ≤ k) (hk' : k ≤ 2000) (h : 100000 * (g + 1) ≤ 30103 * k) :
    (10 : ℚ) ^ g ≤ 2 ^ k := by
  obtain ⟨n, rfl | rfl⟩ := Int.eq_nat_or_neg k
  · rw [← pow_le_pow_iff_left₀ (by positivity) (by positivity) (show 103 ≠ 0 by decide)]
    have hexponent : g * (103 : Nat) ≤ (31 : Nat) * (n : Int) := by push_cast; omega
    calc ((10 : ℚ) ^ g) ^ 103 = 10 ^ (g * (103 : Nat)) := by rw [zpow_mul, zpow_natCast]
      _ ≤ 10 ^ ((31 : Nat) * (n : Int)) := zpow_le_zpow_right₀ (by norm_num) hexponent
      _ = (10 ^ 31) ^ n := by rw [zpow_mul, zpow_natCast, zpow_natCast]
      _ ≤ (2 ^ 103) ^ n := by gcongr; norm_num
      _ = ((2 : ℚ) ^ (n : Int)) ^ 103 := by rw [zpow_natCast, ← pow_mul, ← pow_mul, mul_comm]
  · rw [← pow_le_pow_iff_left₀ (by positivity) (by positivity) (show 93 ≠ 0 by decide)]
    have hexponent : g * (93 : Nat) ≤ -((28 * n : Nat) : Int) := by push_cast; omega
    calc ((10 : ℚ) ^ g) ^ 93 = 10 ^ (g * (93 : Nat)) := by rw [zpow_mul, zpow_natCast]
      _ ≤ 10 ^ (-((28 * n : Nat) : Int)) := zpow_le_zpow_right₀ (by norm_num) hexponent
      _ = ((10 ^ 28) ^ n)⁻¹ := by rw [zpow_neg, zpow_natCast, pow_mul]
      _ ≤ ((2 ^ 93) ^ n)⁻¹ := by gcongr; norm_num
      _ = ((2 : ℚ) ^ (-(n : Int))) ^ 93 := by
        rw [zpow_neg, zpow_natCast, inv_pow, ← pow_mul, ← pow_mul, mul_comm]

theorem ten_zpow_floorLog10_le (hnum : 0 < num) (hden : 0 < den)
    (hk : -2000 ≤ floorLog2 num den) (hk' : floorLog2 num den ≤ 2000) :
    (10 : ℚ) ^ floorLog10 num den ≤ num / den := by
  have hle (k : Int) : powLe 10 k num den ↔ ((10 : Nat) : ℚ) ^ k ≤ num / den :=
    powLe_iff (by decide) hden
  unfold floorLog10
  dsimp only
  split
  case isTrue h => exact_mod_cast (hle _).mp h
  case isFalse =>
    split
    case isTrue h => exact_mod_cast (hle _).mp h
    case isFalse =>
      refine le_trans (ten_zpow_le_two_zpow hk hk' ?_) (floorLog2_spec hnum hden).1
      omega

end Logarithm

namespace Interval

variable {i : Interval} {unit step c : Nat} {value scale u : ℚ}

theorem Contains.of_mul (hscale : 0 < scale) (h : i.Contains (u * scale) (value * scale)) :
    i.Contains u value := by
  unfold Contains at h ⊢
  rw [← mul_assoc, ← mul_assoc, mul_le_mul_iff_left₀ hscale, mul_le_mul_iff_left₀ hscale,
    mul_lt_mul_iff_left₀ hscale, mul_lt_mul_iff_left₀ hscale] at h
  exact h

theorem roundQuotient_cases (num den : Nat) :
    roundQuotient num den = num / den ∨ roundQuotient num den = num / den + 1 := by
  unfold roundQuotient
  dsimp only
  split_ifs <;> simp

/-- A point of the grid that is found lies inside. -/
theorem gridPoint?_contains (h : i.gridPoint? unit step = some c) :
    i.Contains unit (c * step) := by
  have hinside (c : Nat) (hc : (if i.closed then
      decide (i.low * unit ≤ c * step ∧ c * step ≤ i.high * unit)
      else decide (i.low * unit < c * step ∧ c * step < i.high * unit)) = true) :
      i.Contains unit (c * step) := by
    unfold Contains
    split at hc <;> rename_i hclosed
    · rw [if_pos hclosed]
      exact_mod_cast of_decide_eq_true hc
    · rw [if_neg hclosed]
      exact_mod_cast of_decide_eq_true hc
  unfold gridPoint? at h
  dsimp only at h
  split at h <;> rename_i hbelow habove <;> cases h
  · obtain h | h := roundQuotient_cases (i.middle * unit) step <;> rw [h]
    · exact hinside _ hbelow
    · exact hinside _ habove
  · exact hinside _ hbelow
  · exact hinside _ habove

/-- A grid whose points are closer to each other than the ends has a point inside. -/
theorem gridPoint?_isSome (hlow : i.low < i.middle) (hhigh : i.middle < i.high) (hunit : 0 < unit)
    (hstep : 0 < step) (hwide : i.low * unit + step < i.high * unit) :
    (i.gridPoint? unit step).isSome := by
  have hbelow : i.middle * unit / step * step ≤ i.middle * unit := Nat.div_mul_le_self _ _
  have habove : i.middle * unit < (i.middle * unit / step + 1) * step :=
    Nat.lt_mul_of_div_lt (Nat.lt_succ_self _) hstep
  have hlow' := Nat.mul_lt_mul_of_pos_right hlow hunit
  have hhigh' := Nat.mul_lt_mul_of_pos_right hhigh hunit
  unfold gridPoint?
  generalize i.middle * unit / step = below at *
  have hnext : (below + 1) * step = below * step + step := Nat.add_one_mul _ _
  dsimp only
  split <;> rename_i hout hout' <;> try rfl
  -- otherwise one step leads from the low end or below it to the high end or beyond
  cases hclosed : i.closed <;> simp [hclosed] at hout hout' <;> omega

end Interval

namespace Decimal

theorem trim_spec (n : Nat) {d : Decimal} (hpos : 0 < d.coefficient) :
    0 < (trim n d).coefficient ∧ (trim n d).value = d.value := by
  induction n generalizing d with
  | zero => exact ⟨hpos, rfl⟩
  | succ n ih =>
    rw [trim]
    split
    case isTrue h =>
      have hten : d.coefficient = 10 * (d.coefficient / 10) := by omega
      obtain ⟨hpos', hvalue⟩ := @ih ⟨d.coefficient / 10, d.exponent + 1⟩ (by dsimp only; omega)
      refine ⟨hpos', hvalue.trans ?_⟩
      have hcast : (d.coefficient : ℚ) = 10 * (d.coefficient / 10 : Nat) := by exact_mod_cast hten
      unfold value
      rw [hcast, zpow_add_one₀ (by norm_num)]
      ring
    case isFalse => exact ⟨hpos, rfl⟩

end Decimal

section Grids

variable {significand : Nat} {exponent : Int}

/-- The first digit of a finite number counts at most as much as the number itself. -/
theorem ten_zpow_leading_le (h : Canonical significand exponent) (hpos : 0 < significand)
    {a b : Nat} (ha : 0 < a) (hb : 0 < b) (hunit : (a / b : ℚ) = 2 ^ (exponent - 2)) :
    (10 : ℚ) ^ floorLog10 (4 * significand * a) b ≤ 4 * significand * 2 ^ (exponent - 2) := by
  obtain ⟨hlt, hleast, hgreatest, -⟩ := h
  have hnum : 0 < 4 * significand * a := by positivity
  have hvalue : ((4 * significand * a : Nat) / b : ℚ) = 4 * significand * 2 ^ (exponent - 2) := by
    rw [← hunit]
    push_cast
    ring
  have hone : (1 : ℚ) ≤ significand := by exact_mod_cast hpos
  have hbits : (significand : ℚ) < 2 ^ 53 := by
    have : significand < 2 ^ 53 := hlt
    exact_mod_cast this
  have hplace : (0 : ℚ) < 2 ^ (exponent - 2) := by positivity
  have hscale (n : Nat) : (2 : ℚ) ^ (exponent - 2 + n) = 2 ^ (exponent - 2) * 2 ^ n := by
    rw [zpow_add₀ two_ne_zero, zpow_natCast]
  obtain ⟨hlog, hlog'⟩ := floorLog2_spec hnum hb
  rw [hvalue] at hlog hlog'
  have hup : floorLog2 (4 * significand * a) b < exponent - 2 + (55 : Nat) := by
    rw [← zpow_lt_zpow_iff_right₀ (one_lt_two : (1 : ℚ) < 2), hscale]
    nlinarith
  have hdown : exponent - 2 + (2 : Nat) < floorLog2 (4 * significand * a) b + 1 := by
    rw [← zpow_lt_zpow_iff_right₀ (one_lt_two : (1 : ℚ) < 2), hscale]
    nlinarith
  rw [← hvalue]
  exact ten_zpow_floorLog10_le hnum hb (by omega) (by omega)

theorem low_lt_middle (hpos : 0 < significand) :
    (Interval.around significand exponent).low < (Interval.around significand exponent).middle := by
  unfold Interval.around
  dsimp only
  split_ifs <;> omega

theorem middle_lt_high (significand : Nat) (exponent : Int) :
    (Interval.around significand exponent).middle <
      (Interval.around significand exponent).high := by
  unfold Interval.around
  dsimp only
  omega

/-- The ends of the interval around a number are further apart than a step of the sixteenth place
behind its first digit. -/
theorem around_wide (h : Canonical significand exponent) (hpos : 0 < significand) {u step : ℚ}
    (hu : 0 < u) (hstep : step * 10 ^ 16 ≤ 4 * significand * u) :
    (Interval.around significand exponent).low * u + step <
      (Interval.around significand exponent).high * u := by
  have hlt : significand < 2 ^ 53 := h.1
  have hbits : (significand : ℚ) < 2 ^ 53 := by exact_mod_cast hlt
  have hone : 1 ≤ 4 * significand := by omega
  have htwo : 2 ≤ 4 * significand := by omega
  unfold Interval.around
  dsimp only
  split
  case isTrue hleading =>
    have hvalue : (significand : ℚ) = 2 ^ 52 := by
      rw [hleading.1]
      norm_num [leadingBit]
    push_cast [Nat.cast_sub hone]
    rw [hvalue] at hstep ⊢
    linarith
  case isFalse =>
    push_cast [Nat.cast_sub htwo]
    nlinarith

theorem grid_contains {i : Interval} {a b c : Nat} {place : Int} (hb : 0 < b)
    (h : i.gridPoint? (a * (powRatio 10 place).2) ((powRatio 10 place).1 * b) = some c) :
    i.Contains (a / b) (Decimal.value ⟨c, place⟩) := by
  obtain ⟨hp, hq, hvalue⟩ := powRatio_spec (show 0 < 10 by decide) place
  push_cast at hvalue
  have hb' : (0 : ℚ) < b := by exact_mod_cast hb
  have hq' : (0 : ℚ) < (powRatio 10 place).2 := by exact_mod_cast hq
  refine Interval.Contains.of_mul (mul_pos hb' hq') ?_
  have hpoint := Interval.gridPoint?_contains h
  push_cast at hpoint
  unfold Decimal.value
  dsimp only
  rw [← hvalue]
  convert hpoint using 1 <;> field_simp

theorem grid_isSome {i : Interval} {a b : Nat} {place : Int} (ha : 0 < a) (hb : 0 < b)
    (hlow : i.low < i.middle) (hhigh : i.middle < i.high)
    (hwide : i.low * (a / b : ℚ) + 10 ^ place < i.high * (a / b)) :
    (i.gridPoint? (a * (powRatio 10 place).2) ((powRatio 10 place).1 * b)).isSome := by
  obtain ⟨hp, hq, hvalue⟩ := powRatio_spec (show 0 < 10 by decide) place
  push_cast at hvalue
  have hb' : (0 : ℚ) < b := by exact_mod_cast hb
  have hq' : (0 : ℚ) < (powRatio 10 place).2 := by exact_mod_cast hq
  refine Interval.gridPoint?_isSome hlow hhigh (Nat.mul_pos ha hq) (Nat.mul_pos hp hb) ?_
  rw [← hvalue, ← mul_lt_mul_iff_left₀ (mul_pos hb' hq'), add_mul] at hwide
  generalize (powRatio 10 place).1 = p at *
  generalize (powRatio 10 place).2 = q at *
  have hunit (n : Nat) : n * (a / b : ℚ) * (b * q) = n * (a * q) := by field_simp
  have hstep : (p / q : ℚ) * (b * q) = p * b := by field_simp
  rw [hunit, hunit, hstep] at hwide
  exact_mod_cast hwide

theorem pos_of_contains {d : Decimal} {u : ℚ} (hpos : 0 < significand) (hu : 0 < u)
    (h : (Interval.around significand exponent).Contains u d.value) : 0 < d.coefficient := by
  have hvalue : 0 < d.value := h.pos hpos hu
  unfold Decimal.value at hvalue
  exact_mod_cast pos_of_mul_pos_left hvalue (by positivity)

end Grids

/-- The shortest decimal of a positive number is positive and lies in the interval around it. -/
theorem shortest_spec {significand : Nat} {exponent : Int} (h : Canonical significand exponent)
    (hpos : 0 < significand) : 0 < (shortest significand exponent).coefficient ∧
      (Interval.around significand exponent).Contains (2 ^ (exponent - 2))
        (shortest significand exponent).value := by
  obtain ⟨ha, hb, hunit⟩ := powRatio_spec Nat.two_pos (exponent - 2)
  push_cast at hunit
  have hleading := ten_zpow_leading_le h hpos ha hb hunit
  unfold shortest
  generalize powRatio 2 (exponent - 2) = ab at *
  obtain ⟨a, b⟩ := ab
  change 0 < a at ha
  change 0 < b at hb
  dsimp only at hunit hleading ⊢
  have hb' : (0 : ℚ) < b := by exact_mod_cast hb
  split
  case h_1 d hd =>
    obtain ⟨finer, -, hfiner⟩ := List.exists_of_findSome?_eq_some hd
    obtain ⟨c, hc, rfl⟩ := Option.map_eq_some_iff.mp hfiner
    have hinside := grid_contains hb hc
    rw [hunit] at hinside
    obtain ⟨htrim, hvalue⟩ := Decimal.trim_spec 18 (pos_of_contains hpos (by positivity) hinside)
    rw [hvalue]
    exact ⟨htrim, hinside⟩
  case h_2 hnone =>
    exfalso
    -- with seventeen digits some point of the grid is inside
    have hlast := Option.map_eq_none_iff.mp (List.findSome?_eq_none_iff.mp hnone 16 (by simp))
    have hstep : (10 : ℚ) ^ (floorLog10 (4 * significand * a) b - (16 : Nat)) * 10 ^ 16 ≤
        4 * significand * (a / b) := by
      rw [zpow_sub₀ (by norm_num), zpow_natCast, div_mul_cancel₀ _ (by norm_num), hunit]
      exact hleading
    have hplace : (0 : ℚ) < a / b := by rw [hunit]; positivity
    have hwide := around_wide h hpos hplace hstep
    have hsome := grid_isSome ha hb (low_lt_middle hpos) (middle_lt_high _ _) hwide
    exact Option.isSome_iff_ne_none.mp hsome hlast

/-- What stands for the same value as the shortest decimal of a number reads back to the number. -/
theorem ofScientific_shortest {significand digits : Nat} {exponent scale : Int}
    (h : Canonical significand exponent) (hpos : 0 < significand)
    (hvalue : digits * 10 ^ scale = (shortest significand exponent).value) (negative : Bool) :
    ofScientific negative digits scale = .finite negative significand exponent h := by
  refine ofScientific_of_contains h hpos ?_ negative
  rw [hvalue]
  exact (shortest_spec h hpos).2

end ScriptLang.Double
