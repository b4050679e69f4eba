import Mathlib.Algebra.Order.Field.Power
import Mathlib.Tactic
import FieldQuery.Number.Shortest

/-!
# Rounding to the nearest number

A magnitude stands for all the numbers that are nearer to it than to any other, and for
those halfway to a neighbour if its significand is even.  No number rounds to two
magnitudes, and the magnitude that a quotient or a decimal is read as is the one that it
rounds to.

**Results.**

* `near_iff_between`: the rounding interval in whole numbers;
* `roundDiv_eq_iff`: the nearest whole number to a quotient;
* `ofRatio?_eq_some_iff`, `ofDecimal?_eq_some_iff`: the magnitudes that are read;
* `Near.unique`: no number rounds to two magnitudes.
-/

namespace FieldQuery

namespace Magnitude

variable {m n : Magnitude} {q : ℚ}

/--
A number of units rounds to a magnitude.  It lies between the ends of the interval, which
count in quarters of the last place, and may be an end if the significand is even.
-/
def Near (m : Magnitude) (q : ℚ) : Prop :=
  if m.significand % 2 = 0 then
    m.interval.1 * 2 ^ m.exponent ≤ q * 4 ∧ q * 4 ≤ m.interval.2 * 2 ^ m.exponent
  else
    m.interval.1 * 2 ^ m.exponent < q * 4 ∧ q * 4 < m.interval.2 * 2 ^ m.exponent

/-- Whether a number rounds to a magnitude is decided by whole numbers. -/
theorem near_iff_between
    {a c : Nat} (hc : 0 < c) (hq : q * 4 * c = a) :
    m.Near q ↔
      m.between (m.interval.1 * (2 ^ m.exponent * c)) a (m.interval.2 * (2 ^ m.exponent * c))
        = true := by
  have hc' : (0 : ℚ) < c := Nat.cast_pos.2 hc
  have hle : ∀ x y : ℚ, x ≤ y ↔ x * c ≤ y * c :=
    fun x y => (mul_le_mul_iff_left₀ hc').symm
  have hlt : ∀ x y : ℚ, x < y ↔ x * c < y * c :=
    fun x y => (mul_lt_mul_iff_left₀ hc').symm
  unfold Near between
  split
  · rw [hle, hle (q * _), hq, Bool.and_eq_true, decide_eq_true_eq, decide_eq_true_eq]
    norm_cast
    rw [Nat.mul_assoc, Nat.mul_assoc]
  · rw [hlt, hlt (q * _), hq, Bool.and_eq_true, decide_eq_true_eq, decide_eq_true_eq]
    norm_cast
    rw [Nat.mul_assoc, Nat.mul_assoc]

/--
A whole number is taken for a quotient if they are at most half apart, and exactly half
only if it is even.
-/
theorem roundDiv_eq_iff
    {num den s : Nat} (hden : 0 < den) :
    roundDiv num den = s ↔
      if s % 2 = 0 then 2 * (s * den) ≤ 2 * num + den ∧ 2 * num ≤ 2 * (s * den) + den
      else 2 * (s * den) < 2 * num + den ∧ 2 * num < 2 * (s * den) + den := by
  have hnum : num / den * den + num % den = num := Nat.div_add_mod' num den
  have hrest : num % den < den := Nat.mod_lt num hden
  have hnext : (num / den + 1) * den = num / den * den + den := Nat.succ_mul _ _
  constructor
  · rintro rfl
    unfold roundDiv
    grind
  · intro hnear
    have hbounds : 2 * (s * den) ≤ 2 * num + den ∧ 2 * num ≤ 2 * (s * den) + den := by
      split at hnear <;> omega
    -- the quotient lies between the whole numbers on either side of it
    have hlow : num / den ≤ s := by
      by_contra hs
      have hmul := Nat.mul_le_mul_right den (Nat.lt_of_not_le hs)
      rw [Nat.succ_mul] at hmul
      omega
    have hhigh : s ≤ num / den + 1 := by
      by_contra hs
      have hmul := Nat.mul_le_mul_right den (Nat.lt_of_not_le hs)
      rw [Nat.succ_mul, hnext] at hmul
      omega
    unfold roundDiv
    obtain rfl | rfl : s = num / den ∨ s = num / den + 1 := by omega
    · grind
    · grind

/-- The power of two that a quotient is rounded at, told by the place of its leading digit. -/
theorem log2_div_sub_eq
    {num den x : Nat} (hden : 0 < den)
    (hlow : x = 0 ∨ 2 ^ 52 * (2 ^ x * den) ≤ num) (hhigh : num < 2 ^ 53 * (2 ^ x * den)) :
    (num / den).log2 - 52 = x := by
  have hupper : num / den < 2 ^ (53 + x) := by
    rwa [Nat.div_lt_iff_lt_mul hden, pow_add, Nat.mul_assoc]
  rcases hlow with rfl | hlow
  · by_cases hzero : num / den = 0
    · rw [hzero]
      rfl
    · have hlog : (num / den).log2 < 53 := (Nat.log2_lt hzero).2 hupper
      omega
  · have hlower : 2 ^ (52 + x) ≤ num / den := by
      rwa [Nat.le_div_iff_mul_le hden, pow_add, Nat.mul_assoc]
    have hne : num / den ≠ 0 := (Nat.lt_of_lt_of_le (by positivity) hlower).ne'
    have hlog : (num / den).log2 = 52 + x :=
      (Nat.log2_eq_iff hne).2 ⟨hlower, by rwa [Nat.add_right_comm]⟩
    omega

theorem log2_div_sub_bounds
    {num den : Nat} (hden : 0 < den) :
    ((num / den).log2 - 52 = 0 ∨ 2 ^ 52 * (2 ^ ((num / den).log2 - 52) * den) ≤ num) ∧
      num < 2 ^ 53 * (2 ^ ((num / den).log2 - 52) * den) := by
  rw [← Nat.mul_assoc, ← Nat.mul_assoc, ← pow_add, ← pow_add,
    ← Nat.le_div_iff_mul_le hden, ← Nat.div_lt_iff_lt_mul hden]
  constructor
  · by_cases hleading : (num / den).log2 - 52 = 0
    · exact .inl hleading
    · right
      have hne : num / den ≠ 0 := by
        intro hzero
        rw [hzero] at hleading
        exact hleading rfl
      calc 2 ^ (52 + ((num / den).log2 - 52)) = 2 ^ (num / den).log2 := by
            congr 1
            omega
        _ ≤ num / den := Nat.log2_self_le hne
  · calc num / den < 2 ^ ((num / den).log2 + 1) := Nat.lt_log2_self
      _ ≤ 2 ^ (53 + ((num / den).log2 - 52)) := Nat.pow_le_pow_right (by decide) (by omega)

theorem ofParts?_eq_some_iff
    {significand exponent : Nat} :
    ofParts? significand exponent = some m ↔
      m.significand = significand ∧ m.exponent = exponent := by
  unfold ofParts?
  constructor
  · intro hparts
    obtain ⟨hnormal, hm⟩ := Option.dite_none_right_eq_some.1 hparts
    obtain rfl := Option.some.inj hm
    exact ⟨rfl, rfl⟩
  · rintro ⟨rfl, rfl⟩
    exact dif_pos m.normal

/-- The ends of an interval, counted in parts of the last place. -/
theorem interval_mul
    (m : Magnitude) (d : Nat) :
    m.interval.1 * d =
        (if m.significand = 2 ^ 52 ∧ m.exponent ≠ 0 then 4 * (m.significand * d) - d
          else 4 * (m.significand * d) - 2 * d) ∧
      m.interval.2 * d = 4 * (m.significand * d) + 2 * d := by
  unfold interval
  rw [Nat.pow_eq]
  constructor
  · split
    · rw [Nat.sub_mul, Nat.mul_assoc, Nat.one_mul]
    · rw [Nat.sub_mul, Nat.mul_assoc]
  · rw [Nat.add_mul, Nat.mul_assoc]

/-- Only nothing has less than one part of the last place. -/
theorem even_or_le_mul
    (m : Magnitude) (d : Nat) :
    m.significand % 2 = 0 ∨ d ≤ m.significand * d := by
  refine (Nat.eq_zero_or_pos m.significand).imp ?_ (Nat.le_mul_of_pos_left d)
  intro hzero
  rw [hzero]

theorem between_iff
    {low a high : Nat} :
    m.between low a high = true ↔
      if m.significand % 2 = 0 then low ≤ a ∧ a ≤ high else low < a ∧ a < high := by
  unfold between
  split <;> simp

/-- **A quotient is read as the magnitude** whose interval it lies in. -/
theorem ofRatio?_of_between
    {num den : Nat} (hden : 0 < den)
    (hbetween :
      m.between (m.interval.1 * (2 ^ m.exponent * den)) (4 * num)
        (m.interval.2 * (2 ^ m.exponent * den)) = true) :
    ofRatio? num den = some m := by
  have hplace : 0 < 2 ^ m.exponent * den := by positivity
  obtain ⟨hlow, hhigh⟩ := m.interval_mul (2 ^ m.exponent * den)
  rw [between_iff, hlow, hhigh] at hbetween
  obtain ⟨hlt, -, hnormal⟩ := m.normal
  rw [Nat.pow_eq] at hlt hnormal
  have hgreatest : m.significand * (2 ^ m.exponent * den) ≤ (2 ^ 53 - 1) * (2 ^ m.exponent * den) :=
    Nat.mul_le_mul_right _ (Nat.le_sub_one_of_lt hlt)
  rw [Nat.sub_mul, Nat.one_mul] at hgreatest
  by_cases hbinade : m.exponent = 0 ∨ 2 ^ 52 * (2 ^ m.exponent * den) ≤ num
  · -- the quotient has the exponent of the magnitude
    have hexponent : (num / den).log2 - 52 = m.exponent := by
      refine log2_div_sub_eq hden hbinade ?_
      split at hbetween <;> omega
    have hsignificand : roundDiv num (den * 2 ^ m.exponent) = m.significand := by
      rw [roundDiv_eq_iff (by positivity), Nat.mul_comm den]
      split_ifs at hbetween ⊢ <;> omega
    simp only [ofRatio?, hexponent, hsignificand, Nat.pow_eq]
    rw [if_neg hlt.ne]
    exact ofParts?_eq_some_iff.2 ⟨rfl, rfl⟩
  · -- the quotient is rounded up to a power of two
    obtain ⟨hpositive, hbelow⟩ := not_or.1 hbinade
    obtain ⟨x, hx⟩ := Nat.exists_eq_succ_of_ne_zero hpositive
    have hleast := hnormal.resolve_left hpositive
    have hpower : m.significand = 2 ^ 52 := by
      refine Nat.le_antisymm ?_ hleast
      by_contra hgreater
      have hmul := Nat.mul_le_mul_right (2 ^ m.exponent * den) (Nat.lt_of_not_le hgreater)
      rw [Nat.succ_mul] at hmul
      split_ifs at hbetween <;> omega
    have hhalf : 2 ^ m.exponent * den = 2 * (2 ^ x * den) := by
      rw [hx, pow_succ]
      ring
    rw [if_pos (by omega), if_pos ⟨hpower, hpositive⟩, hpower, hhalf] at hbetween
    rw [hhalf] at hbelow
    have hexponent : (num / den).log2 - 52 = x := log2_div_sub_eq hden (by omega) (by omega)
    have hsignificand : roundDiv num (den * 2 ^ x) = 2 ^ 53 := by
      rw [roundDiv_eq_iff (by positivity), Nat.mul_comm den, if_pos (by norm_num)]
      omega
    simp only [ofRatio?, hexponent, hsignificand, Nat.pow_eq]
    rw [if_pos trivial]
    exact ofParts?_eq_some_iff.2 ⟨hpower, hx⟩

/-- **A quotient lies in the interval** of the magnitude that it is read as. -/
theorem between_of_ofRatio?
    {num den : Nat} (hden : 0 < den) (hratio : ofRatio? num den = some m) :
    m.between (m.interval.1 * (2 ^ m.exponent * den)) (4 * num)
      (m.interval.2 * (2 ^ m.exponent * den)) = true := by
  obtain ⟨hlow, hhigh⟩ := m.interval_mul (2 ^ m.exponent * den)
  rw [between_iff, hlow, hhigh]
  obtain ⟨hleast, hbelow⟩ := @log2_div_sub_bounds num den hden
  simp only [ofRatio?, Nat.pow_eq] at hratio
  generalize (num / den).log2 - 52 = x at hratio hleast hbelow
  obtain ⟨s, hs⟩ : ∃ s, roundDiv num (den * 2 ^ x) = s := ⟨_, rfl⟩
  have hnear := (roundDiv_eq_iff (by positivity)).1 hs
  rw [Nat.mul_comm den] at hnear
  rw [hs] at hratio
  split at hratio
  · -- the quotient is rounded up to a power of two
    rename_i hgreatest
    obtain ⟨hsignificand, hexponent⟩ := ofParts?_eq_some_iff.1 hratio
    have hhalf : 2 ^ (x + 1) * den = 2 * (2 ^ x * den) := by
      rw [pow_succ]
      ring
    rw [hgreatest, if_pos (by norm_num)] at hnear
    rw [hsignificand, hexponent, hhalf, if_pos (by norm_num), if_pos (by simp)]
    omega
  · obtain ⟨rfl, rfl⟩ := ofParts?_eq_some_iff.1 hratio
    by_cases hpower : m.significand = 2 ^ 52 ∧ m.exponent ≠ 0
    · -- below a power of two there is no quotient of its exponent
      have hmin := hleast.resolve_left hpower.2
      rw [← hpower.1] at hmin
      rw [if_pos (by omega)] at hnear ⊢
      rw [if_pos hpower]
      omega
    · have hodd := m.even_or_le_mul (2 ^ m.exponent * den)
      rw [if_neg hpower]
      split_ifs at hnear ⊢ <;> omega

/-- A quotient is read as the magnitude that it rounds to, if there is one. -/
theorem ofRatio?_eq_some_iff
    {num den : Nat} (hden : 0 < den) (hq : q * den = num) :
    ofRatio? num den = some m ↔ m.Near q := by
  have hquarters : q * 4 * den = (4 * num : Nat) := by
    rw [mul_right_comm, hq, mul_comm]
    norm_cast
  rw [near_iff_between hden hquarters]
  exact ⟨between_of_ofRatio? hden, ofRatio?_of_between hden⟩

theorem Near.nonneg
    (hnear : m.Near q) :
    0 ≤ q := by
  have hlow : (m.interval.1 * 2 ^ m.exponent : ℚ) ≤ q * 4 := by
    unfold Near at hnear
    split at hnear
    · exact hnear.1
    · exact hnear.1.le
  have hscaled : 0 ≤ q * 4 := le_trans (by positivity) hlow
  exact nonneg_of_mul_nonneg_left hscaled (by positivity)

/-- **No number rounds to two magnitudes.** -/
theorem Near.unique
    (hm : m.Near q) (hn : n.Near q) :
    m = n := by
  have hq : q * q.den = q.num.toNat := by
    have hnum : ((q.num.toNat : ℤ) : ℚ) = q.num := by
      rw [Int.toNat_of_nonneg (Rat.num_nonneg.2 hm.nonneg)]
    rw [Rat.mul_den_eq_num, ← hnum, Int.cast_natCast]
  have hread := (ofRatio?_eq_some_iff q.den_pos hq).2 hm
  rw [(ofRatio?_eq_some_iff q.den_pos hq).2 hn] at hread
  exact (Option.some.inj hread).symm

/-- What is at most half of the least positive number rounds to nothing. -/
theorem near_zero
    (hq : 0 ≤ q) (hhalf : q * 4 ≤ 2) :
    zero.Near q := by
  have hends : zero.interval = (0, 2) := by
    decide
  unfold Near
  rw [if_pos (by rfl), hends]
  norm_num [zero]
  exact ⟨hq, hhalf⟩

/-- No number beyond the greatest magnitudes rounds to one. -/
theorem Near.lt
    (hnear : m.Near q) :
    q * 4 < 2 ^ 2100 := by
  obtain ⟨hlt, hle, -⟩ := m.normal
  rw [Nat.pow_eq] at hlt
  have hends : m.interval.2 < 2 ^ 55 := by
    have hsecond : m.interval.2 = 4 * m.significand + 2 := rfl
    omega
  have hhigh : q * 4 ≤ m.interval.2 * 2 ^ m.exponent := by
    unfold Near at hnear
    split at hnear
    · exact hnear.2
    · exact hnear.2.le
  have hplaces : (2 : ℚ) ^ m.exponent ≤ 2 ^ (2100 - 55) :=
    pow_le_pow_right₀ one_le_two hle
  calc q * 4 ≤ m.interval.2 * 2 ^ m.exponent := hhigh
    _ < 2 ^ 55 * 2 ^ (2100 - 55) :=
        mul_lt_mul (by exact_mod_cast hends) hplaces (by positivity) (by positivity)
    _ = 2 ^ 2100 := pow_mul_pow_sub 2 (by norm_num)

section Decimals

variable {digits : Nat} {exponent : Int}

/-- A decimal place divides by more than three powers of two. -/
theorem decimal_lt_zpow
    (hexponent : exponent ≤ 0) :
    (digits * 10 ^ exponent : ℚ) < 2 ^ ((digits.log2 : Int) + 1 + 3 * exponent) := by
  have hdigits : (digits : ℚ) < 2 ^ ((digits.log2 : Int) + 1) := by
    have hlog : digits < 2 ^ (digits.log2 + 1) := Nat.lt_log2_self
    exact_mod_cast hlog
  have hplaces : (10 : ℚ) ^ exponent ≤ 2 ^ (3 * exponent) := by
    obtain ⟨places, rfl⟩ := Int.exists_eq_neg_ofNat hexponent
    rw [zpow_mul, zpow_neg, zpow_neg, zpow_natCast, zpow_natCast]
    exact inv_anti₀ (by positivity) (pow_le_pow_left₀ (by norm_num) (by norm_num) _)
  rw [zpow_add₀ two_ne_zero]
  exact mul_lt_mul hdigits hplaces (by positivity) (by positivity)

/-- A decimal place multiplies by more than three powers of two. -/
theorem zpow_le_decimal
    (hdigits : digits ≠ 0) (hexponent : 0 ≤ exponent) :
    (2 : ℚ) ^ ((digits.log2 : Int) + 3 * exponent) ≤ digits * 10 ^ exponent := by
  have hlog : (2 : ℚ) ^ (digits.log2 : Int) ≤ digits := by
    have hself : 2 ^ digits.log2 ≤ digits := Nat.log2_self_le hdigits
    exact_mod_cast hself
  have hplaces : (2 : ℚ) ^ (3 * exponent) ≤ 10 ^ exponent := by
    obtain ⟨places, rfl⟩ := Int.eq_ofNat_of_zero_le hexponent
    rw [zpow_mul, zpow_natCast, zpow_natCast]
    exact pow_le_pow_left₀ (by norm_num) (by norm_num) _
  rw [zpow_add₀ two_ne_zero]
  exact mul_le_mul hlog hplaces (by positivity) (by positivity)

/-- How many units make one, the unit being the least positive number. -/
@[irreducible]
def unitsPerOne : Nat :=
  Nat.pow 2 1074

theorem cast_unitsPerOne :
    (unitsPerOne : ℚ) = 2 ^ ((1074 : Nat) : ℤ) := by
  unfold unitsPerOne
  generalize 1074 = k
  rw [zpow_natCast, Nat.pow_eq, Nat.cast_pow, Nat.cast_ofNat]

/-- What a decimal is read as, whatever the unit. -/
theorem ofDecimal?_eq :
    ofDecimal? digits exponent =
      if digits = 0 then some zero
      else if exponent < 0 then
        if (digits.log2 : Int) + 1 + 3 * exponent < -1080 then some zero
        else ofRatio? (digits * unitsPerOne) (Nat.pow 10 (-exponent).toNat)
      else if 1100 < (digits.log2 : Int) + 3 * exponent then none
      else ofRatio? (digits * Nat.pow 10 exponent.toNat * unitsPerOne) 1 := by
  unfold ofDecimal? unitsPerOne
  exact Eq.refl _

/-- A decimal of negative exponent is a quotient of units. -/
theorem decimal_mul_of_neg
    (hexponent : exponent < 0) (unit : Nat) :
    (digits * 10 ^ exponent * unit : ℚ) * (Nat.pow 10 (-exponent).toNat : Nat) =
      (digits * unit : Nat) := by
  have hplaces : (10 : ℚ) ^ exponent * 10 ^ (-exponent).toNat = 1 := by
    rw [← zpow_natCast, Int.toNat_of_nonneg (by omega), ← zpow_add₀ (by norm_num),
      add_neg_cancel, zpow_zero]
  simp only [Nat.pow_eq, Nat.cast_mul, Nat.cast_pow, Nat.cast_ofNat]
  rw [mul_right_comm, mul_assoc (digits : ℚ), hplaces, mul_one]

/-- A decimal of another exponent is a whole number of units. -/
theorem decimal_mul_of_nonneg
    (hexponent : 0 ≤ exponent) (unit : Nat) :
    (digits * 10 ^ exponent * unit : ℚ) = (digits * Nat.pow 10 exponent.toNat * unit : Nat) := by
  have hplaces : (10 : ℚ) ^ exponent = 10 ^ exponent.toNat := by
    rw [← zpow_natCast, Int.toNat_of_nonneg hexponent]
  simp only [Nat.pow_eq, Nat.cast_mul, Nat.cast_pow, Nat.cast_ofNat, hplaces]

/-- **A decimal is read as the magnitude that it rounds to**, if there is one. -/
theorem ofDecimal?_eq_some_iff :
    ofDecimal? digits exponent = some m ↔ m.Near (digits * 10 ^ exponent * unitsPerOne) := by
  have hzero : (digits * 10 ^ exponent * unitsPerOne * 4 : ℚ) ≤ 2 →
      (some zero = some m ↔ m.Near (digits * 10 ^ exponent * unitsPerOne)) := by
    intro hhalf
    have hnear := near_zero (by positivity) hhalf
    rw [Option.some_inj]
    exact ⟨fun h => h ▸ hnear, fun h => hnear.unique h⟩
  rw [ofDecimal?_eq]
  split_ifs with hdigits hexponent hsmall hlarge
  · apply hzero
    rw [hdigits]
    simp
  · -- the decimal is less than half of the least positive number
    apply hzero
    have hpower : (digits * 10 ^ exponent : ℚ) ≤ 2 ^ (-1080 : ℤ) :=
      (decimal_lt_zpow hexponent.le).le.trans (zpow_le_zpow_right₀ one_le_two (by omega))
    calc (digits * 10 ^ exponent * unitsPerOne * 4 : ℚ) ≤ 2 ^ (-1080 : ℤ) * unitsPerOne * 4 := by
          gcongr
      _ ≤ 2 := by
          rw [cast_unitsPerOne, ← zpow_add₀ two_ne_zero]
          norm_num
  · exact ofRatio?_eq_some_iff (Nat.pow_pos (by decide)) (decimal_mul_of_neg hexponent _)
  · -- the decimal is beyond the greatest number
    refine iff_of_false nofun fun hnear => ?_
    have hpower : (2 : ℚ) ^ (1101 : ℤ) ≤ digits * 10 ^ exponent :=
      (zpow_le_zpow_right₀ one_le_two (by omega)).trans
        (zpow_le_decimal hdigits (not_lt.1 hexponent))
    have hlarger : (2 : ℚ) ^ (2100 : ℤ) ≤ digits * 10 ^ exponent * unitsPerOne * 4 := by
      calc (2 : ℚ) ^ (2100 : ℤ) ≤ 2 ^ (1101 : ℤ) * 2 ^ ((1074 : Nat) : ℤ) * 2 ^ (2 : ℤ) := by
            rw [← zpow_add₀ two_ne_zero, ← zpow_add₀ two_ne_zero]
            exact zpow_le_zpow_right₀ one_le_two (by norm_num)
        _ = 2 ^ (1101 : ℤ) * unitsPerOne * 4 := by
            rw [cast_unitsPerOne]
            norm_num
        _ ≤ digits * 10 ^ exponent * unitsPerOne * 4 := by
            gcongr
    exact absurd hnear.lt (not_lt.2 hlarger)
  · refine ofRatio?_eq_some_iff Nat.one_pos ?_
    rw [Nat.cast_one, mul_one]
    exact decimal_mul_of_nonneg (not_lt.1 hexponent) _

end Decimals

end Magnitude

end FieldQuery
