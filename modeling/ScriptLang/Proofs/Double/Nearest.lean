import ScriptLang.Double.Decimal
import ScriptLang.Proofs.Double.Ratio

namespace ScriptLang.Double

/-- What the finite numbers that are not negative stand for. -/
def Representable (v : ℚ) : Prop :=
  ∃ (s : Nat) (e : Int), s < 2 ^ 53 ∧ -1074 ≤ e ∧ e ≤ 971 ∧ v = s * 2 ^ e

/-- Half a last place above the greatest finite number. -/
def overflow : ℚ := (2 ^ 54 - 1) * 2 ^ (970 : Int)

/-- Rounding to the nearest of the numbers that are not negative. No other number is nearer to the
target, and if another one is as near then the significand is even. -/
inductive IsNearest (target : ℚ) : Double → Prop where
  | finite {s : Nat} {e : Int} (h : Canonical s e) (hless : target < overflow)
      (hnear : ∀ v, Representable v → |s * 2 ^ e - target| ≤ |v - target|)
      (htie : ∀ v, Representable v → v ≠ s * 2 ^ e →
        |v - target| = |s * 2 ^ e - target| → s % 2 = 0) :
      IsNearest target (.finite false s e h)
  | infinity (h : overflow ≤ target) : IsNearest target (.infinity false)

section Spacing

variable {s s' : Nat} {e e' : Int} {v target : ℚ} {value value' : Double}

theorem Canonical.representable (h : Canonical s e) : Representable (s * 2 ^ e) :=
  ⟨s, e, h.1, h.2.1, h.2.2.1, rfl⟩

/-- At a place that is not below another one, a number is a whole count of the other one. -/
theorem exists_count (s' : Nat) (hle : e ≤ e') : ∃ n : Nat, (s' * 2 ^ e' : ℚ) = n * 2 ^ e := by
  obtain ⟨k, rfl⟩ := Int.le.dest hle
  refine ⟨s' * 2 ^ k, ?_⟩
  rw [zpow_add₀ two_ne_zero, zpow_natCast]
  push_cast
  ring

/-- Numbers at the places below another one do not reach what has 53 bits there. -/
theorem lt_of_place_lt (hs : s' < 2 ^ 53) (hlt : e' < e) :
    (s' * 2 ^ e' : ℚ) < 2 ^ 52 * 2 ^ e := by
  have hbits : (s' : ℚ) < 2 ^ 53 := by exact_mod_cast hs
  have hplace : (0 : ℚ) < 2 ^ e' := by positivity
  calc (s' * 2 ^ e' : ℚ) < 2 ^ 53 * 2 ^ e' := mul_lt_mul_of_pos_right hbits hplace
    _ = 2 ^ 52 * 2 ^ (e' + 1) := by rw [zpow_add_one₀ two_ne_zero]; ring
    _ ≤ 2 ^ 52 * 2 ^ e := by gcongr <;> [exact one_le_two; exact hlt]

theorem Canonical.full_le (h : Canonical s e) (hleast : -1074 < e) :
    (2 ^ 52 * 2 ^ e : ℚ) ≤ s * 2 ^ e := by
  have hbits : 2 ^ 52 ≤ s := h.2.2.2.resolve_right hleast.ne'
  gcongr
  exact_mod_cast hbits

/-- Above a number there is none before the next one at its place. -/
theorem Canonical.le_of_lt (h : Canonical s e) (hv : Representable v) (hlt : s * 2 ^ e < v) :
    (s + 1) * 2 ^ e ≤ v := by
  obtain ⟨s', e', hs', hleast, -, rfl⟩ := hv
  have hplace : (0 : ℚ) < 2 ^ e := by positivity
  obtain hle | hbelow := le_or_gt e e'
  · obtain ⟨n, hn⟩ := exists_count s' hle
    rw [hn] at hlt ⊢
    have hcount : s + 1 ≤ n := by exact_mod_cast lt_of_mul_lt_mul_right hlt hplace.le
    exact mul_le_mul_of_nonneg_right (by exact_mod_cast hcount) hplace.le
  · have hfull := h.full_le (hleast.trans_lt hbelow)
    exact absurd (hlt.trans (lt_of_place_lt hs' hbelow)) (not_lt.mpr hfull)

theorem Canonical.place_le (h : Canonical s e) (h' : Canonical s' e')
    (heq : (s * 2 ^ e : ℚ) = s' * 2 ^ e') : e ≤ e' := by
  by_contra hlt
  have hbelow := not_le.mp hlt
  have hless := lt_of_place_lt h'.1 hbelow
  rw [← heq] at hless
  exact absurd hless (not_lt.mpr (h.full_le (h'.2.1.trans_lt hbelow)))

/-- Numbers in range that stand for the same value have the same parts. -/
theorem Canonical.parts_eq (h : Canonical s e) (h' : Canonical s' e')
    (heq : (s * 2 ^ e : ℚ) = s' * 2 ^ e') : s = s' ∧ e = e' := by
  obtain rfl := le_antisymm (h.place_le h' heq) (h'.place_le h heq.symm)
  have hplace : (2 ^ e : ℚ) ≠ 0 := by positivity
  exact ⟨by exact_mod_cast mul_right_cancel₀ hplace heq, rfl⟩

/-- Of two numbers with even significands the next one after the lower lies between them. -/
theorem Canonical.exists_between (h : Canonical s e) (h' : Canonical s' e') (heven : s % 2 = 0)
    (heven' : s' % 2 = 0) (hlt : (s * 2 ^ e : ℚ) < s' * 2 ^ e') :
    ∃ v, Representable v ∧ s * 2 ^ e < v ∧ v < s' * 2 ^ e' := by
  obtain ⟨hbits, hleast, hgreatest, hfull⟩ := id h
  have hplace : (0 : ℚ) < 2 ^ e := by positivity
  have hnext : Canonical (s + 1) e :=
    ⟨by unfold leadingBit at *; omega, hleast, hgreatest, hfull.imp_left (·.trans s.le_succ)⟩
  refine ⟨((s + 1 : Nat) : ℚ) * 2 ^ e, hnext.representable, ?_, lt_of_le_of_ne ?_ fun heq => ?_⟩
  · exact mul_lt_mul_of_pos_right (by exact_mod_cast s.lt_succ_self) hplace
  · exact_mod_cast h.le_of_lt h'.representable hlt
  · obtain ⟨hparts, -⟩ := hnext.parts_eq h' heq
    omega

/-- What is as far from both ends is further from them than from what lies between them. -/
theorem abs_sub_lt_of_between {low high : ℚ} (heq : |low - target| = |high - target|)
    (hlow : low < v) (hhigh : v < high) : |v - target| < |low - target| := by
  have hmiddle : target - low = high - target := by
    obtain h | h := abs_eq_abs.mp heq
    · linarith
    · linarith
  rw [abs_of_neg (by linarith : low - target < 0)]
  exact abs_lt.mpr ⟨by linarith, by linarith⟩

theorem Canonical.le_of_nearest (h : Canonical s e) (h' : Canonical s' e')
    (heq : |s * 2 ^ e - target| = |s' * 2 ^ e' - target|)
    (hnear : ∀ v, Representable v → |s * 2 ^ e - target| ≤ |v - target|)
    (htie : s' * 2 ^ e' ≠ (s * 2 ^ e : ℚ) → s % 2 = 0)
    (htie' : s * 2 ^ e ≠ (s' * 2 ^ e' : ℚ) → s' % 2 = 0) : (s' * 2 ^ e' : ℚ) ≤ s * 2 ^ e := by
  by_contra hle
  have hlt := not_le.mp hle
  -- both significands are even, so the odd one between them is nearer
  obtain ⟨v, hv, hlow, hhigh⟩ := h.exists_between h' (htie hlt.ne') (htie' hlt.ne) hlt
  exact absurd (hnear v hv) (not_le.mpr (abs_sub_lt_of_between heq hlow hhigh))

/-- One number at most is the nearest. -/
theorem IsNearest.unique (h : IsNearest target value) (h' : IsNearest target value') :
    value = value' := by
  cases h with
  | infinity hge =>
    cases h' with
    | infinity => rfl
    | finite _ hless => exact absurd hless (not_lt.mpr hge)
  | @finite s e hs hless hnear htie =>
    cases h' with
    | infinity hge => exact absurd hless (not_lt.mpr hge)
    | @finite s' e' hs' _ hnear' htie' =>
      have heq := le_antisymm (hnear _ hs'.representable) (hnear' _ hs.representable)
      have htie (hne : s' * 2 ^ e' ≠ (s * 2 ^ e : ℚ)) : s % 2 = 0 :=
        htie _ hs'.representable hne heq.symm
      have htie' (hne : s * 2 ^ e ≠ (s' * 2 ^ e' : ℚ)) : s' % 2 = 0 :=
        htie' _ hs.representable hne heq
      have hle := hs.le_of_nearest hs' heq hnear htie htie'
      have hge := hs'.le_of_nearest hs heq.symm hnear' htie' htie
      obtain ⟨rfl, rfl⟩ := hs.parts_eq hs' (le_antisymm hge hle)
      rfl

end Spacing

section Rounding

variable {num den q n : Nat} {e : Int} {x target v : ℚ}

theorem abs_roundQuotient_sub_le (num : Nat) (hden : 0 < den) :
    |(roundQuotient num den : ℚ) - num / den| ≤ 1 / 2 ∧
      (|(roundQuotient num den : ℚ) - num / den| = 1 / 2 → roundQuotient num den % 2 = 0) := by
  obtain ⟨hlow, hhigh, hends⟩ := roundQuotient_spec num hden
  generalize roundQuotient num den = q at *
  have hpos : (0 : ℚ) < den := by exact_mod_cast hden
  have hquotient : (num / den : ℚ) * den = num := div_mul_cancel₀ _ hpos.ne'
  generalize (num / den : ℚ) = x at *
  have hlow' : (2 * q * den : ℚ) ≤ 2 * num + den := by exact_mod_cast hlow
  have hhigh' : (2 * num : ℚ) ≤ (2 * q + 1) * den := by exact_mod_cast hhigh
  rw [← hquotient] at hlow' hhigh'
  refine ⟨abs_le.mpr ⟨?_, ?_⟩, fun hhalf => hends.resolve_right fun hstrict => ?_⟩
  · nlinarith
  · nlinarith
  · have hlow' : (2 * q * den : ℚ) < 2 * num + den := by exact_mod_cast hstrict.1
    have hhigh' : (2 * num : ℚ) < (2 * q + 1) * den := by exact_mod_cast hstrict.2
    rw [← hquotient] at hlow' hhigh'
    refine hhalf.not_lt (abs_lt.mpr ⟨?_, ?_⟩)
    · nlinarith
    · nlinarith

/-- A natural number within a half is the nearest, and the only one within less than a half. -/
theorem near_of_half (h : |(q : ℚ) - x| ≤ 1 / 2) (hne : n ≠ q) :
    |(q : ℚ) - x| ≤ |n - x| ∧ (|(n : ℚ) - x| = |q - x| → |(q : ℚ) - x| = 1 / 2) := by
  have hone : (1 : ℚ) ≤ |(n : ℚ) - q| := by
    have hint : (1 : Int) ≤ |(n : Int) - q| := Int.one_le_abs (by omega)
    exact_mod_cast hint
  have htriangle : |(n : ℚ) - q| ≤ |(n : ℚ) - x| + |(q : ℚ) - x| := by
    rw [abs_sub_comm (q : ℚ) x]
    exact abs_sub_le _ _ _
  exact ⟨by linarith, fun heq => by linarith⟩

/-- A count of a place that is nearest to the target, where the numbers at the places below do not
reach the target. -/
structure IsCount (target : ℚ) (q : Nat) (e : Int) : Prop where
  half : |(q : ℚ) - target / 2 ^ e| ≤ 1 / 2
  even : |(q : ℚ) - target / 2 ^ e| = 1 / 2 → q % 2 = 0
  least : -1074 ≤ e
  place : e = -1074 ∨ 2 ^ 52 * 2 ^ e ≤ target

namespace IsCount

theorem near_count (h : IsCount target q e) (hne : n ≠ q) :
    |q * 2 ^ e - target| ≤ |n * 2 ^ e - target| ∧
      (|n * 2 ^ e - target| = |q * 2 ^ e - target| → q % 2 = 0) := by
  have hunit : (0 : ℚ) < 2 ^ e := by positivity
  have hscale (n : Nat) : |n * 2 ^ e - target| = |(n : ℚ) - target / 2 ^ e| * 2 ^ e := by
    rw [← abs_of_pos hunit, ← abs_mul, abs_of_pos hunit, sub_mul, div_mul_cancel₀ _ hunit.ne']
  obtain ⟨hle, hends⟩ := near_of_half h.half hne
  rw [hscale, hscale]
  refine ⟨mul_le_mul_of_nonneg_right hle hunit.le, fun heq => h.even (hends ?_)⟩
  exact mul_right_cancel₀ hunit.ne' heq

/-- What is nearest among the counts of a place is nearest among all numbers. -/
theorem near (h : IsCount target q e) (hv : Representable v) (hne : v ≠ q * 2 ^ e) :
    |q * 2 ^ e - target| ≤ |v - target| ∧
      (|v - target| = |q * 2 ^ e - target| → q % 2 = 0) := by
  obtain ⟨s', e', hs', hleast, -, rfl⟩ := hv
  obtain hle | hbelow := le_or_gt e e'
  · obtain ⟨n, hn⟩ := exists_count s' hle
    rw [hn] at hne ⊢
    exact h.near_count fun heq => hne (by rw [heq])
  · -- the least number with all bits at the place is nearer than any at a place below
    have hreach := h.place.resolve_left (by omega)
    have hless := lt_of_place_lt hs' hbelow
    have hfull : |q * 2 ^ e - target| ≤ |(2 ^ 52 : Nat) * 2 ^ e - target| := by
      obtain rfl | hother := eq_or_ne (2 ^ 52) q
      · exact le_rfl
      · exact (h.near_count hother).1
    rw [show ((2 ^ 52 : Nat) : ℚ) = 2 ^ 52 by norm_num,
      abs_of_nonpos (by linarith : (2 ^ 52 * 2 ^ e - target : ℚ) ≤ 0)] at hfull
    rw [abs_of_neg (by linarith : (s' * 2 ^ e' - target : ℚ) < 0)]
    exact ⟨by linarith, fun heq => by linarith⟩

theorem isNearest {s : Nat} {e' : Int} (h : IsCount target q e) (hcanonical : Canonical s e')
    (hvalue : (s * 2 ^ e' : ℚ) = q * 2 ^ e) (hparity : q % 2 = 0 → s % 2 = 0)
    (hless : target < overflow) : IsNearest target (.finite false s e' hcanonical) := by
  refine .finite hcanonical hless (fun v hv => ?_) fun v hv hne heq => hparity ?_
  · rw [hvalue]
    obtain rfl | hne := eq_or_ne v (q * 2 ^ e)
    · exact le_rfl
    · exact (h.near hv hne).1
  · rw [hvalue] at hne heq
    exact (h.near hv hne).2 heq

theorem le_add_half (h : IsCount target q e) : target / 2 ^ e ≤ q + 1 / 2 := by
  linarith [(abs_le.mp h.half).1]

theorem sub_half_le (h : IsCount target q e) : (q : ℚ) - 1 / 2 ≤ target / 2 ^ e := by
  linarith [(abs_le.mp h.half).2]

end IsCount

theorem overflow_eq : overflow = (2 ^ 53 - 1 / 2) * 2 ^ (971 : Int) := by
  rw [overflow, show (971 : Int) = 970 + 1 by rfl, zpow_add_one₀ two_ne_zero]
  ring

theorem lt_overflow (hle : e ≤ 971) (hless : target < (2 ^ 53 - 1 / 2) * 2 ^ e) :
    target < overflow := by
  rw [overflow_eq]
  exact hless.trans_le (mul_le_mul_of_nonneg_left (zpow_le_zpow_right₀ one_le_two hle)
    (by norm_num))

theorem overflow_le (hle : 971 ≤ e) (hless : (2 ^ 53 - 1 / 2) * 2 ^ e ≤ target) :
    overflow ≤ target := by
  rw [overflow_eq]
  exact le_trans (mul_le_mul_of_nonneg_left (zpow_le_zpow_right₀ one_le_two hle) (by norm_num))
    hless

namespace IsCount

/-- A count that needs a bit more than there are is one at the next place. -/
theorem isNearest_carry (h : IsCount target (2 * leadingBit) e) (hrange : target < 2 ^ 53 * 2 ^ e) :
    IsNearest target (ofParts false leadingBit (e + 1)) := by
  have hunit : (0 : ℚ) < 2 ^ e := by positivity
  have hcount : ((2 * leadingBit : Nat) : ℚ) = 2 ^ 53 := by norm_num [leadingBit]
  have hlow := h.sub_half_le
  rw [hcount] at hlow
  obtain hle | hgt := le_or_gt e 970
  · have hcanonical : Canonical leadingBit (e + 1) :=
      ⟨by decide, by linarith [h.least], by omega, .inl le_rfl⟩
    rw [ofParts, dif_pos hcanonical]
    refine h.isNearest hcanonical ?_ (fun _ => rfl) (lt_overflow (e := e + 1) (by omega) ?_)
    · rw [zpow_add_one₀ two_ne_zero]
      push_cast
      ring
    · rw [zpow_add_one₀ two_ne_zero]
      linarith
  · rw [ofParts, dif_neg fun hcanonical => by linarith [hcanonical.2.2.1]]
    exact .infinity (overflow_le hgt ((le_div_iff₀ hunit).mp hlow))

/-- A half above the greatest count is a tie, which that count loses. -/
theorem lt_greatest (h : IsCount target q e) (hmost : q < 2 ^ 53) :
    target / 2 ^ e < 2 ^ 53 - 1 / 2 := by
  obtain hlt | heq := lt_or_eq_of_le h.le_add_half
  · have hnext : (q + 1 : ℚ) ≤ 2 ^ 53 := by exact_mod_cast hmost
    linarith
  · have htwo := h.even (by rw [heq, sub_add_cancel_left, abs_neg]; norm_num)
    have hnext : (q + 2 : ℚ) ≤ 2 ^ 53 := by
      have hnat : q + 2 ≤ 2 ^ 53 := by omega
      exact_mod_cast hnat
    linarith

theorem isNearest_count (h : IsCount target q e) (hmost : q < 2 ^ 53) :
    IsNearest target (ofParts false q e) := by
  have hunit : (0 : ℚ) < 2 ^ e := by positivity
  obtain hle | hgt := le_or_gt e 971
  · have hfull : leadingBit ≤ q ∨ e = -1074 := by
      refine h.place.symm.imp_left fun hreach => ?_
      have hcount : (2 ^ 52 : ℚ) < q + 1 := by
        linarith [(le_div_iff₀ hunit).mpr hreach, h.le_add_half]
      exact Nat.lt_succ_iff.mp (by exact_mod_cast hcount)
    have hcanonical : Canonical q e := ⟨hmost, h.least, hle, hfull⟩
    rw [ofParts, dif_pos hcanonical]
    refine h.isNearest hcanonical rfl id (lt_overflow hle ?_)
    exact (div_lt_iff₀ hunit).mp (h.lt_greatest hmost)
  · rw [ofParts, dif_neg fun hcanonical => by linarith [hcanonical.2.2.1]]
    have hreach := h.place.resolve_left (by omega)
    refine .infinity (overflow_le (e := e - 1) (by omega) ?_)
    rw [zpow_sub_one₀ two_ne_zero]
    linarith

/-- The number whose parts are a rounded count of a place is the nearest, wherever the target lies
in the range of that place. -/
theorem isNearest_parts (h : IsCount target q e) (hrange : target < 2 ^ 53 * 2 ^ e) :
    IsNearest target (if q = 2 * leadingBit then ofParts false leadingBit (e + 1)
      else ofParts false q e) := by
  split
  case isTrue hcarry =>
    subst hcarry
    exact h.isNearest_carry hrange
  case isFalse hcarry =>
    apply h.isNearest_count
    have hbits := (div_lt_iff₀ (by positivity : (0 : ℚ) < 2 ^ e)).mpr hrange
    have hcount : (q : ℚ) < 2 ^ 53 + 1 := by linarith [h.sub_half_le]
    exact lt_of_le_of_ne (Nat.lt_succ_iff.mp (by exact_mod_cast hcount)) hcarry

end IsCount

/-- A quotient is rounded to the nearest number. -/
theorem isNearest_ofRatio (num : Nat) (hden : 0 < den) :
    IsNearest (num / den) (ofRatio false num den) := by
  obtain rfl | hnum := Nat.eq_zero_or_pos num
  · refine .finite (by decide) ?_ (fun v _ => ?_) fun _ _ _ _ => rfl
    · norm_num [overflow]
    · simp
  obtain ⟨hlog, hlog'⟩ := floorLog2_spec hnum hden
  unfold ofRatio
  rw [if_neg hnum.ne']
  generalize hexponent : max (-1074) (floorLog2 num den - 52) = e
  obtain ⟨ha, hb, hunit⟩ := powRatio_spec Nat.two_pos e
  dsimp only
  generalize powRatio 2 e = ab at *
  obtain ⟨a, b⟩ := ab
  push_cast at hunit
  have hscaled : (((num * b : Nat) : ℚ) / (den * a : Nat)) = num / den / 2 ^ e := by
    rw [← hunit]
    push_cast
    field_simp
  -- in units of the last place the quotient is rounded to a count, within a half
  obtain ⟨hhalf, heven⟩ := abs_roundQuotient_sub_le (num * b) (Nat.mul_pos hden ha)
  rw [hscaled] at hhalf heven
  have hplace : e = -1074 ∨ 2 ^ 52 * 2 ^ e ≤ (num / den : ℚ) := by
    obtain hsmall | hlarge := le_or_gt (floorLog2 num den - 52) (-1074)
    · exact .inl (by omega)
    · refine .inr (le_trans (le_of_eq ?_) hlog)
      rw [show floorLog2 num den = e + (52 : Nat) by push_cast; omega, zpow_add₀ two_ne_zero,
        zpow_natCast, mul_comm]
  have hcount : IsCount (num / den) (roundQuotient (num * b) (den * a)) e :=
    ⟨hhalf, heven, by omega, hplace⟩
  refine hcount.isNearest_parts (hlog'.trans_le ?_)
  rw [mul_comm, ← zpow_natCast, ← zpow_add₀ two_ne_zero]
  exact zpow_le_zpow_right₀ one_le_two (by push_cast; omega)

/-- The number that digits and a fraction are read as is the nearest to what they say. -/
theorem isNearest_ofDecimal (whole fraction : List Char) :
    IsNearest (Nat.ofDigitChars 10 (whole ++ fraction) 0 / 10 ^ fraction.length)
      (ofDecimal false whole fraction) := by
  have hnearest := isNearest_ofRatio (ofDigitChars (whole ++ fraction))
    (Nat.pow_pos (n := fraction.length) (show 0 < 10 by decide))
  push_cast at hnearest
  exact hnearest

end Rounding

end ScriptLang.Double
