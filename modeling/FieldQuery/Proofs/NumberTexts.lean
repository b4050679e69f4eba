import FieldQuery.Proofs.DecimalTexts
import FieldQuery.Proofs.ShortestDecimals

/-!
# Numbers are read as they were written

The text of a decimal is digits with a point, with an exponent, or with both.  Every layout
writes such a text, of a decimal of the same value, and the reader of binary numbers takes
every such text for the decimal.  So a finite number is read back from its text, whatever
the layout, and no two of them have one text.

**Results.**

* `DecimalText`: the texts of decimals;
* `Decimal.decimalText_write`: what is written is such a text;
* `Binary64.read?_write`: a finite number is read back from its text;
* `Binary64.write_injective`: no two finite numbers have one text;
* `isNumeral_of_mem_write`, `isNumeral_of_mem_intText`: the characters of numbers;
* `intText_ne_write`: no integer has the text of a finite number.
-/

namespace FieldQuery

/-- An exponent behind digits, if there is one. -/
inductive ExponentText : List Char → Int → Prop
  | none :
      ExponentText [] 0
  | letter
      {cs : List Char} {negative : Bool} {m : Nat}
      (hsigned : Signed cs negative (natDigits m)) :
      ExponentText ('e' :: cs) (withSign negative m)

/-- Digits with a point among them, or an exponent behind them, or both, and the decimal. -/
inductive DecimalText : List Char → Decimal → Prop
  | point
      {whole fraction tail : List Char} {n : Nat} {e : Int}
      (hdigits : Digits (whole ++ fraction) n)
      (hne : whole ++ fraction ≠ [])
      (htail : ExponentText tail e) :
      DecimalText (whole ++ '.' :: (fraction ++ tail)) ⟨n, e - fraction.length⟩
  | letter
      {whole cs : List Char} {n m : Nat} {negative : Bool}
      (hdigits : Digits whole n)
      (hne : whole ≠ [])
      (hsigned : Signed cs negative (natDigits m)) :
      DecimalText (whole ++ 'e' :: cs) ⟨n, withSign negative m⟩

theorem ExponentText.readExponent?_eq
    {cs : List Char} {e : Int} (htail : ExponentText cs e) :
    Binary64.readExponent? cs = some e := by
  cases htail with
  | none => rfl
  | letter hsigned => exact Binary64.readExponent?_of_signed hsigned

/-- **The text of a decimal is read** as the decimal. -/
theorem DecimalText.readDecimal?_eq
    {cs : List Char} {d : Decimal} (htext : DecimalText cs d) (negative : Bool) :
    Binary64.readDecimal? negative cs =
      some (Binary64.ofDecimal negative d.digits d.exponent) := by
  cases htext with
  | point hdigits hne htail =>
      exact Binary64.readDecimal?_of_point hdigits hne htail.readExponent?_eq
  | letter hdigits hne hsigned =>
      exact Binary64.readDecimal?_of_whole hdigits hne (Binary64.readExponent?_of_signed hsigned)

/-- Digits behind a point are as many places. -/
theorem DecimalText.of_places
    {whole fraction : List Char} {d : Decimal}
    (hdigits : Digits (whole ++ fraction) d.digits) (hne : whole ++ fraction ≠ [])
    (hplaces : d.exponent = -fraction.length) :
    DecimalText (whole ++ '.' :: fraction) d := by
  have htext := DecimalText.point hdigits hne .none
  rwa [List.append_nil, zero_sub, ← hplaces] at htext

namespace Decimal

/-- Zeros behind the digits, one of them behind the point, do not change the value. -/
theorem value_shifted
    (d : Decimal) (hexponent : 0 ≤ d.exponent) :
    (⟨10 ^ (d.exponent.toNat + 1) * d.digits, -1⟩ : Decimal).value = d.value := by
  have hplaces : (10 : ℚ) ^ (d.exponent.toNat + 1) * 10 ^ (-1 : Int) = 10 ^ d.exponent := by
    rw [← zpow_natCast, ← zpow_add₀ (by norm_num)]
    congr 1
    omega
  rw [value, value, ← hplaces]
  push_cast
  ring

/-- The positional form of a decimal is the text of one of its value. -/
theorem decimalText_plain
    (d : Decimal) :
    ∃ d', DecimalText d.plain d' ∧ d'.value = d.value := by
  have hdigits := digits_natDigits d.digits
  have hne : natDigits d.digits ≠ [] := Nat.toDigits_ne_nil
  unfold plain
  dsimp only
  split
  · -- the zeros on both sides of the point are digits of the number that is read
    rename_i hexponent
    have hall := hdigits.append (digits_zeros (d.exponent.toNat + 1))
    rw [List.length_replicate, Nat.add_zero, List.replicate_succ', ← List.append_assoc] at hall
    exact ⟨_, .point hall (by simp) .none, d.value_shifted hexponent⟩
  · rename_i hexponent
    refine ⟨d, ?_, rfl⟩
    split
    · rename_i hlt
      apply DecimalText.of_places
      · rwa [List.take_append_drop]
      · rwa [List.take_append_drop]
      · rw [List.length_drop]
        omega
    · rename_i hge
      have hall := (digits_zeros ((-d.exponent).toNat - (natDigits d.digits).length + 1)).append
        hdigits
      rw [Nat.mul_zero, Nat.zero_add, List.replicate_succ, List.cons_append] at hall
      refine @DecimalText.of_places ['0'] (List.replicate _ '0' ++ _) _ hall (by simp) ?_
      rw [List.length_append, List.length_replicate]
      omega

/-- The exponent that is written is an integer, whether or not it has a plus. -/
theorem signed_leading
    (layout : Layout) (d : Decimal) :
    ∃ negative,
      Signed ((if layout.signedExponent ∧ 0 ≤ d.leading then ['+'] else []) ++ intText d.leading)
        negative (natDigits d.leading.natAbs) ∧
      withSign negative d.leading.natAbs = d.leading := by
  split
  · rename_i hplus
    refine ⟨false, ?_, ?_⟩
    · rw [intText, if_neg (by omega)]
      exact .plus
    · rw [withSign, if_neg Bool.false_ne_true]
      omega
  · exact signed_intText d.leading

/-- The form with an exponent is the text of the decimal. -/
theorem decimalText_scientific
    (layout : Layout) (d : Decimal) :
    DecimalText (d.scientific layout) d := by
  have hdigits := digits_natDigits d.digits
  obtain ⟨negative, hsigned, hvalue⟩ := d.signed_leading layout
  unfold scientific
  dsimp only
  rw [List.append_assoc, List.cons_append]
  split
  · rename_i hnone
    exact absurd hnone Nat.toDigits_ne_nil
  · rename_i c hone
    rw [hone] at hdigits
    have htext := DecimalText.letter hdigits (by simp) hsigned
    have hexponent : (⟨d.digits, d.leading⟩ : Decimal) = d := by
      simp [leading, hone]
    rwa [hvalue, hexponent] at htext
  · rename_i c cs hne hmore
    rw [hmore] at hdigits
    have htext := @DecimalText.point [c] cs _ _ _ hdigits (by simp) (.letter hsigned)
    have hexponent : d.leading - cs.length = d.exponent := by
      simp [leading, hmore]
      omega
    rwa [hvalue, hexponent] at htext

/-- **What is written** in any layout is the text of a decimal of the same value. -/
theorem decimalText_write
    (layout : Layout) (d : Decimal) :
    ∃ d', DecimalText (d.write layout) d' ∧ d'.value = d.value := by
  unfold write
  split
  · exact d.decimalText_plain
  · exact ⟨d, d.decimalText_scientific layout, rfl⟩

end Decimal

namespace Binary64

variable {layout : Layout}

/-- A magnitude is written as a decimal that rounds to it. -/
theorem decimalText_writeMagnitude
    (layout : Layout) (m : Magnitude) :
    ∃ d, DecimalText (writeMagnitude layout m) d ∧ m.Near (d.value * Magnitude.unitsPerOne) := by
  unfold writeMagnitude
  split
  · rename_i hzero
    refine ⟨⟨0, -1⟩, ?_, ?_⟩
    · exact @DecimalText.of_places ['0'] ['0'] _ (digits_zeros 2) (by simp) rfl
    · have hnear := m.near_units
      rw [Magnitude.units, hzero, Nat.zero_mul] at hnear
      simpa [Decimal.value] using hnear
  · obtain ⟨d, htext, hvalue⟩ := (m.shortest layout.tie).decimalText_write layout
    refine ⟨d, htext, ?_⟩
    rw [hvalue]
    exact Magnitude.near_shortest layout.tie m

/-- The text of a finite number is that of its magnitude, behind a sign. -/
theorem signed_write
    (layout : Layout) (negative : Bool) (m : Magnitude) :
    Signed (write layout (finite negative m)).toList negative (writeMagnitude layout m) := by
  cases negative with
  | false =>
      simpa [write] using Signed.none
  | true =>
      simpa [write] using Signed.minus

/-- **A finite number is read back** from its text in any layout. -/
theorem read?_write
    {x : Binary64} (layout : Layout) (hfinite : x.isFinite = true) :
    read? (x.write layout) = some x := by
  cases x with
  | finite negative m =>
      obtain ⟨d, htext, hnear⟩ := decimalText_writeMagnitude layout m
      have hread := htext.readDecimal?_eq negative
      have hdecimal := Magnitude.ofDecimal?_eq_some_iff.2 hnear
      rw [ofDecimal, hdecimal] at hread
      exact read?_of_signed (signed_write layout negative m) hread
  | nan => cases hfinite
  | infinite negative => cases hfinite

/-- **No two finite numbers have one text.** -/
theorem write_injective
    {x y : Binary64} (hx : x.isFinite = true) (hy : y.isFinite = true)
    (hwrite : x.write layout = y.write layout) :
    x = y := by
  have hread := read?_write layout hx
  rw [hwrite, read?_write layout hy] at hread
  exact (Option.some.inj hread).symm

end Binary64

section Characters

variable {c : Char}

/-- The characters that numbers are written with. -/
def isNumeral (c : Char) : Bool :=
  c.isDigit || c ∈ ['-', '+', '.', 'e']

theorem isNumeral_of_mem_digits
    {cs : List Char} {n : Nat} (hdigits : Digits cs n) (hc : c ∈ cs) :
    isNumeral c = true := by
  rw [isNumeral, (digits_iff.1 hdigits).1 c hc, Bool.true_or]

theorem isNumeral_of_mem_signed
    {cs ds : List Char} {negative : Bool} (hsigned : Signed cs negative ds)
    (hds : ∀ d ∈ ds, isNumeral d = true) (hc : c ∈ cs) :
    isNumeral c = true := by
  cases hsigned with
  | none =>
      exact hds c hc
  | plus =>
      rcases List.mem_cons.1 hc with rfl | hc
      · rfl
      · exact hds c hc
  | minus =>
      rcases List.mem_cons.1 hc with rfl | hc
      · rfl
      · exact hds c hc

theorem isNumeral_of_mem_natDigits
    {n : Nat} :
    ∀ c ∈ natDigits n, isNumeral c = true :=
  fun _ hc => isNumeral_of_mem_digits (digits_natDigits n) hc

theorem ExponentText.isNumeral_of_mem
    {cs : List Char} {e : Int} (htail : ExponentText cs e) (hc : c ∈ cs) :
    isNumeral c = true := by
  cases htail with
  | none =>
      cases hc
  | letter hsigned =>
      rcases List.mem_cons.1 hc with rfl | hc
      · rfl
      · exact isNumeral_of_mem_signed hsigned isNumeral_of_mem_natDigits hc

theorem DecimalText.isNumeral_of_mem
    {cs : List Char} {d : Decimal} (htext : DecimalText cs d) (hc : c ∈ cs) :
    isNumeral c = true := by
  cases htext with
  | point hdigits _ htail =>
      have hall := fun c => @isNumeral_of_mem_digits c _ _ hdigits
      simp only [List.mem_append, List.mem_cons] at hc hall
      rcases hc with hwhole | rfl | hfraction | hexponent
      · exact hall c (.inl hwhole)
      · rfl
      · exact hall c (.inr hfraction)
      · exact htail.isNumeral_of_mem hexponent
  | letter hdigits _ hsigned =>
      rcases List.mem_append.1 hc with hwhole | hexponent
      · exact isNumeral_of_mem_digits hdigits hwhole
      · exact (ExponentText.letter hsigned).isNumeral_of_mem hexponent

/-- A decimal has a point or an exponent. -/
theorem DecimalText.exists_mark
    {cs : List Char} {d : Decimal} (htext : DecimalText cs d) :
    '.' ∈ cs ∨ 'e' ∈ cs := by
  cases htext with
  | point => simp
  | letter => simp

namespace Binary64

variable {layout : Layout} {x : Binary64}

/-- A finite number is written with the characters of numbers. -/
theorem isNumeral_of_mem_write
    (hfinite : x.isFinite = true) (hc : c ∈ (x.write layout).toList) :
    isNumeral c = true := by
  cases x with
  | finite negative m =>
      obtain ⟨d, htext, -⟩ := decimalText_writeMagnitude layout m
      exact isNumeral_of_mem_signed (signed_write layout negative m)
        (fun _ => htext.isNumeral_of_mem) hc
  | nan => cases hfinite
  | infinite negative => cases hfinite

/-- A finite number is written with a point or an exponent. -/
theorem exists_mark_write
    (hfinite : x.isFinite = true) :
    '.' ∈ (x.write layout).toList ∨ 'e' ∈ (x.write layout).toList := by
  cases x with
  | finite negative m =>
      obtain ⟨d, htext, -⟩ := decimalText_writeMagnitude layout m
      have hsigned := signed_write layout negative m
      exact htext.exists_mark.imp hsigned.mem hsigned.mem
  | nan => cases hfinite
  | infinite negative => cases hfinite

end Binary64

theorem intText_ne_nil
    (n : Int) :
    intText n ≠ [] := by
  unfold intText
  split
  · exact List.cons_ne_nil _ _
  · exact Nat.toDigits_ne_nil

theorem isDigit_of_mem_intText
    {n : Int} (hc : c ∈ intText n) :
    c.isDigit = true ∨ c = '-' := by
  unfold intText at hc
  split at hc
  · rcases List.mem_cons.1 hc with rfl | hc
    · exact .inr rfl
    · exact .inl (isDigit_of_mem_natDigits c hc)
  · exact .inl (isDigit_of_mem_natDigits c hc)

theorem isNumeral_of_mem_intText
    {n : Int} (hc : c ∈ intText n) :
    isNumeral c = true := by
  rcases isDigit_of_mem_intText hc with hdigit | rfl
  · rw [isNumeral, hdigit, Bool.true_or]
  · rfl

/-- **No integer has the text of a finite number**, which has a point or an exponent. -/
theorem intText_ne_write
    {x : Binary64} {layout : Layout} (n : Int) (hfinite : x.isFinite = true) :
    intText n ≠ (x.write layout).toList := by
  intro htext
  have hmark := @Binary64.exists_mark_write layout x hfinite
  rw [← htext] at hmark
  rcases hmark with hpoint | hletter
  · exact absurd (isDigit_of_mem_intText hpoint) (by decide)
  · exact absurd (isDigit_of_mem_intText hletter) (by decide)

/-- **No two integers have one text.** -/
theorem intText_injective
    {m n : Int} (htext : intText m = intText n) :
    m = n := by
  obtain ⟨a, hm, hmvalue⟩ := signed_intText m
  obtain ⟨b, hn, hnvalue⟩ := signed_intText n
  -- both are read back as exponents
  have hread := Binary64.readExponent?_of_signed hm
  rw [htext, Binary64.readExponent?_of_signed hn, hmvalue, hnvalue] at hread
  exact (Option.some.inj hread).symm

end Characters

end FieldQuery
