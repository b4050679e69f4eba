import FieldQuery.Proofs.NearestNumbers

/-!
# Shortest decimals round back

The decimal that a magnitude is written with lies in the rounding interval of the
magnitude, whichever grid it is found on, so that it is read as the magnitude again.

**Results.**

* `near_of_gridPoint?`: a point of a grid that is found rounds to the magnitude;
* `near_units`: so does the magnitude itself;
* `near_shortest`: and so does the shortest decimal.
-/

namespace FieldQuery

/-- The number that a decimal denotes. -/
def Decimal.value (d : Decimal) : ℚ :=
  d.digits * 10 ^ d.exponent

namespace Magnitude

variable {m : Magnitude} {tie : Tie} {k : Int}

theorem pow_eq_four_mul_unitsPerOne :
    Nat.pow 2 1076 = 4 * unitsPerOne := by
  unfold unitsPerOne
  rw [show (1076 : Nat) = 1074 + 2 from rfl]
  generalize 1074 = k
  rw [Nat.pow_eq, Nat.pow_eq, Nat.pow_add]
  omega

/-- Whatever decides between two points of a grid, the one that is taken hits the interval. -/
theorem between_of_gridPoint?
    {n : Nat} (hpoint : gridPoint? tie m k = some n) :
    m.between (m.interval.1 * (Nat.pow 2 m.exponent * Nat.pow 10 (-k).toNat))
      (n * (Nat.pow 2 1076 * Nat.pow 10 k.toNat))
      (m.interval.2 * (Nat.pow 2 m.exponent * Nat.pow 10 (-k).toNat)) = true := by
  unfold gridPoint? at hpoint
  extract_lets scale step value low high below gap hit at hpoint
  suffices hhit : hit n = true from hhit
  split at hpoint
  · rename_i hbelow habove
    have hside : n = below ∨ n = below + 1 := by
      cases tie with
      | up =>
          split_ifs at hpoint
          · exact .inl (Option.some.inj hpoint).symm
          · exact .inr (Option.some.inj hpoint).symm
          · exact .inr (Option.some.inj hpoint).symm
          · exact .inr (Option.some.inj hpoint).symm
      | even =>
          split_ifs at hpoint
          · exact .inl (Option.some.inj hpoint).symm
          · exact .inr (Option.some.inj hpoint).symm
          · exact .inl (Option.some.inj hpoint).symm
          · exact .inr (Option.some.inj hpoint).symm
    rcases hside with rfl | rfl
    · exact hbelow
    · exact habove
  · rename_i hbelow _
    obtain rfl := Option.some.inj hpoint
    exact hbelow
  · rename_i _ habove
    obtain rfl := Option.some.inj hpoint
    exact habove
  · cases hpoint

/-- **A point of a grid that is found** rounds to the magnitude. -/
theorem near_of_gridPoint?
    {n : Nat} (hpoint : gridPoint? tie m k = some n) :
    m.Near ((⟨n, k⟩ : Decimal).value * unitsPerOne) := by
  have hplaces : (10 : ℚ) ^ k * 10 ^ (-k).toNat = 10 ^ k.toNat := by
    rw [← zpow_natCast, ← zpow_natCast, ← zpow_add₀ (by norm_num)]
    congr 1
    omega
  have hbetween := between_of_gridPoint? hpoint
  rw [pow_eq_four_mul_unitsPerOne, Nat.pow_eq, Nat.pow_eq, Nat.pow_eq] at hbetween
  refine (near_iff_between (by positivity) ?_).2 hbetween
  rw [Decimal.value]
  push_cast
  rw [← hplaces]
  ring

theorem gridPoint?_of_search
    {d : Decimal} {n : Nat} (hsearch : search tie m k n = some d) :
    gridPoint? tie m d.exponent = some d.digits := by
  induction n generalizing k with
  | zero =>
      cases hsearch
  | succ n ih =>
      rw [search] at hsearch
      split at hsearch
      · rename_i hpoint
        obtain rfl := Option.some.inj hsearch
        exact hpoint
      · exact ih hsearch

/-- A magnitude rounds to itself. -/
theorem near_units
    (m : Magnitude) :
    m.Near m.units := by
  have hplace : 0 < 2 ^ m.exponent := Nat.two_pow_pos _
  have hunits : (m.units : ℚ) * 4 * (1 : Nat) = (4 * m.units : Nat) := by
    push_cast
    ring
  rw [near_iff_between Nat.one_pos hunits, between_iff, Nat.mul_one]
  obtain ⟨hlow, hhigh⟩ := m.interval_mul (2 ^ m.exponent)
  rw [hlow, hhigh, units, Nat.pow_eq]
  have hodd := m.even_or_le_mul (2 ^ m.exponent)
  split_ifs <;> omega

/-- The decimal with all its places denotes a magnitude. -/
theorem value_exact
    (m : Magnitude) :
    (⟨m.units * Nat.pow 5 1074, -1074⟩ : Decimal).value * unitsPerOne = m.units := by
  rw [Decimal.value, cast_unitsPerOne, show (-1074 : ℤ) = -((1074 : Nat) : ℤ) from rfl]
  generalize 1074 = k
  rw [zpow_neg, zpow_natCast, zpow_natCast, Nat.pow_eq, show (10 : ℚ) = 5 * 2 by norm_num, mul_pow]
  push_cast
  field_simp

/-- **The shortest decimal** rounds to the magnitude. -/
theorem near_shortest
    (tie : Tie) (m : Magnitude) :
    m.Near ((m.shortest tie).value * unitsPerOne) := by
  unfold shortest
  cases hsearch : search tie m 309 634 with
  | some d =>
      exact near_of_gridPoint? (gridPoint?_of_search hsearch)
  | none =>
      rw [Option.getD_none, value_exact]
      exact m.near_units

end Magnitude

end FieldQuery
