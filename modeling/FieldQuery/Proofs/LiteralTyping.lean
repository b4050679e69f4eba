import FieldQuery.Proofs.DecimalTexts
import FieldQuery.Proofs.NearestNumbers
import FieldQuery.Value

/-!
# The types of words

Every word is an integer, a number with a point, or a text, and never two of them.  The
three readers that decide this differ in what they accept: the reader of integers takes a
sign and digits within 64 bits, that of points takes digits on either side of one, and the
reader of binary numbers takes exponents and names besides.  What they agree on is told
here by the shape of the word alone.

**Results.**

* `readInteger?_eq_some_iff`, `isPointed_iff`: what two of the readers accept;
* `Binary64.read?_of_pointed`: the third reads every word with a point;
* `ofWord_eq_finite_iff`: the number that a word with a point is read as;
* `ofWord_partition`: the type of every word.
-/

namespace FieldQuery

/-- A text is a sign, if any, and one or more digits, and denotes an integer. -/
inductive IntegerText : List Char → Int → Prop
  | of
      {cs ds : List Char} {negative : Bool} {m : Nat}
      (hsigned : Signed cs negative ds)
      (hne : ds ≠ [])
      (hdigits : Digits ds m) :
      IntegerText cs (withSign negative m)

/--
A text is a sign, if any, and digits with one point among or around them, one digit at
least.  Without the point they denote `m`, and `places` of them are behind it.
-/
inductive PointedText : List Char → Bool → Nat → Nat → Prop
  | of
      {cs whole fraction : List Char} {negative : Bool} {m : Nat}
      (hsigned : Signed cs negative (whole ++ '.' :: fraction))
      (hne : whole ++ fraction ≠ [])
      (hdigits : Digits (whole ++ fraction) m) :
      PointedText cs negative m fraction.length

namespace Value

variable {s : String}

theorem fits_iff
    {n : Int} :
    fits n = true ↔ -2 ^ 63 ≤ n ∧ n ≤ 2 ^ 63 - 1 := by
  simp only [fits, Nat.pow_eq, Bool.and_eq_true, decide_eq_true_eq]
  omega

/-- What the reader of integers makes of a sign and digits. -/
theorem readInteger?_of_signed
    {negative : Bool} {ds : List Char} {m : Nat}
    (hsigned : Signed s.toList negative ds) (hne : ds ≠ []) (hdigits : Digits ds m) :
    readInteger? s =
      if fits (withSign negative m) then some (withSign negative m) else none := by
  obtain ⟨hall, hvalue⟩ := digits_iff.1 hdigits
  have hsplit : splitSign s.toList = (negative, ds) :=
    hsigned.splitSign_of_head fun c hc => .inl (hall c (List.mem_of_head? hc))
  simp only [readInteger?, hsplit, hvalue]
  exact if_pos ⟨hne, List.all_eq_true.2 hall⟩

/-- **A word is read as an integer** exactly if it denotes one of 64 bits. -/
theorem readInteger?_eq_some_iff
    {n : Int} :
    readInteger? s = some n ↔
      IntegerText s.toList n ∧ -2 ^ 63 ≤ n ∧ n ≤ 2 ^ 63 - 1 := by
  rw [← fits_iff]
  constructor
  · intro hread
    by_cases hds : (splitSign s.toList).2 ≠ [] ∧ (splitSign s.toList).2.all Char.isDigit = true
    · have hdigits : Digits (splitSign s.toList).2 (digitsValue (splitSign s.toList).2) :=
        digits_iff.2 ⟨List.all_eq_true.1 hds.2, rfl⟩
      have hsigned := signed_splitSign s.toList
      rw [readInteger?_of_signed hsigned hds.1 hdigits] at hread
      obtain ⟨hfits, hvalue⟩ := Option.ite_none_right_eq_some.1 hread
      obtain rfl := Option.some.inj hvalue
      exact ⟨.of hsigned hds.1 hdigits, hfits⟩
    · have hnone : readInteger? s = none := if_neg hds
      rw [hnone] at hread
      cases hread
  · intro ⟨htext, hfits⟩
    cases htext with
    | of hsigned hne hdigits =>
        rw [readInteger?_of_signed hsigned hne hdigits, if_pos hfits]

/-- What the reader of points finds behind a sign. -/
theorem isPointed_of_splitSign
    {negative : Bool} {cs : List Char}
    (hsplit : splitSign s.toList = (negative, cs)) :
    isPointed s = true ↔
      ∃ whole fraction, cs = whole ++ '.' :: fraction ∧ whole ++ fraction ≠ [] ∧
        ∀ c ∈ whole ++ fraction, c.isDigit = true := by
  simp only [isPointed, hsplit]
  constructor
  · intro hpointed
    split at hpointed
    · rename_i fraction hdrop
      rw [Bool.and_eq_true] at hpointed
      refine ⟨cs.takeWhile Char.isDigit, fraction, ?_, ?_, ?_⟩
      · rw [← hdrop, List.takeWhile_append_dropWhile]
      · have hsome := hpointed.2
        simp at hsome
        simpa [List.append_eq_nil_iff, or_iff_not_imp_left] using hsome
      · rw [List.forall_mem_append]
        exact ⟨List.all_eq_true.1 List.all_takeWhile, List.all_eq_true.1 hpointed.1⟩
    · cases hpointed
  · rintro ⟨whole, fraction, rfl, hne, hall⟩
    rw [List.forall_mem_append] at hall
    have hpoint : ∀ c ∈ ('.' :: fraction).head?, c.isDigit = false := by
      simp
    rw [takeWhile_append_of_head? hall.1 hpoint, dropWhile_append_of_head? hall.1 hpoint]
    simp only [Bool.and_eq_true, List.all_eq_true]
    refine ⟨hall.2, ?_⟩
    cases whole with
    | nil => simpa using hne
    | cons c whole => rfl

/-- A word has a point among digits exactly if it has the shape of a number with a point. -/
theorem isPointed_iff :
    isPointed s = true ↔ ∃ negative m places, PointedText s.toList negative m places := by
  constructor
  · intro hpointed
    have hsigned := signed_splitSign s.toList
    have hsplit : splitSign s.toList = ((splitSign s.toList).1, (splitSign s.toList).2) := rfl
    obtain ⟨whole, fraction, hcs, hne, hall⟩ := (isPointed_of_splitSign hsplit).1 hpointed
    rw [hcs] at hsigned
    exact ⟨_, _, _, .of hsigned hne (digits_iff.2 ⟨hall, rfl⟩)⟩
  · rintro ⟨negative, m, places, htext⟩
    cases htext with
    | @of whole fraction _ _ hsigned hne hdigits =>
        have hall := (digits_iff.1 hdigits).1
        have hsplit := hsigned.splitSign_of_head (head?_of_point hall)
        exact (isPointed_of_splitSign hsplit).2
          ⟨whole, fraction, rfl, hne, hall⟩

end Value

/-- A word with a point is read as the binary number nearest to what it denotes. -/
theorem Binary64.read?_of_pointed
    {s : String} {negative : Bool} {m places : Nat}
    (htext : PointedText s.toList negative m places) :
    Binary64.read? s = some (.ofDecimal negative m (-places)) := by
  cases htext with
  | @of whole fraction _ _ hsigned hne hdigits =>
      have hdecimal := @readDecimal?_of_point negative whole fraction [] 0 m hdigits hne rfl
      rw [List.append_nil, zero_sub] at hdecimal
      exact read?_of_signed hsigned hdecimal

namespace Value

/-- A point is no digit of an integer. -/
theorem readInteger?_eq_none_of_pointed
    {negative : Bool} {m places : Nat}
    (htext : PointedText s.toList negative m places) :
    readInteger? s = none := by
  cases htext with
  | @of whole fraction _ _ hsigned _ hdigits =>
      have hsplit := hsigned.splitSign_of_head (head?_of_point (digits_iff.1 hdigits).1)
      simp only [readInteger?, hsplit]
      refine if_neg fun hds => ?_
      have hpoint := List.all_eq_true.1 hds.2 '.' (List.mem_append_right _ List.mem_cons_self)
      exact absurd hpoint (by decide)

/-- **A word is read as a number with a point** exactly if it has that shape and is finite. -/
theorem readFloat?_eq_some_iff
    {x : Binary64} :
    readFloat? s = some x ↔
      ∃ negative m places, PointedText s.toList negative m places ∧
        Binary64.read? s = some x ∧ x = .ofDecimal negative m (-places) ∧ x.isFinite = true := by
  constructor
  · intro hread
    simp only [readFloat?, Option.ite_none_right_eq_some, Option.filter_eq_some_iff] at hread
    obtain ⟨hpointed, hvalue, hfinite⟩ := hread
    obtain ⟨negative, m, places, htext⟩ := isPointed_iff.1 hpointed
    have hdecimal := Binary64.read?_of_pointed htext
    exact ⟨negative, m, places, htext, hvalue,
      Option.some.inj (hvalue.symm.trans hdecimal), hfinite⟩
  · rintro ⟨negative, m, places, htext, hvalue, -, hfinite⟩
    simp only [readFloat?, Option.ite_none_right_eq_some, Option.filter_eq_some_iff]
    exact ⟨isPointed_iff.2 ⟨negative, m, places, htext⟩, hvalue, hfinite⟩

/-- A word is no number with a point if it has another shape or is not finite. -/
theorem readFloat?_eq_none_iff :
    readFloat? s = none ↔
      ∀ negative m places, PointedText s.toList negative m places →
        (Binary64.ofDecimal negative m (-places)).isFinite = false := by
  rw [Option.eq_none_iff_forall_ne_some]
  constructor
  · intro hnone negative m places htext
    rw [← Bool.not_eq_true]
    intro hfinite
    exact hnone _ (readFloat?_eq_some_iff.2
      ⟨negative, m, places, htext, Binary64.read?_of_pointed htext, rfl, hfinite⟩)
  · intro hinfinite x hread
    obtain ⟨negative, m, places, htext, -, rfl, hfinite⟩ := readFloat?_eq_some_iff.1 hread
    rw [hinfinite negative m places htext] at hfinite
    cases hfinite

theorem ofWord_eq_integer_iff
    {n : Int} :
    ofWord s = .integer n ↔ readInteger? s = some n := by
  unfold ofWord
  cases readInteger? s with
  | some m =>
      simp
  | none =>
      cases readFloat? s <;> simp

/-- What is read as a number with a point is not read as an integer before. -/
theorem ofWord_eq_float_iff
    {x : Binary64} :
    ofWord s = .float x ↔ readFloat? s = some x := by
  have hfirst : readFloat? s = some x → readInteger? s = none := by
    intro hread
    obtain ⟨_, _, _, htext, -⟩ := readFloat?_eq_some_iff.1 hread
    exact readInteger?_eq_none_of_pointed htext
  unfold ofWord
  constructor
  · intro hword
    split at hword
    · cases hword
    · split at hword
      · rename_i hread
        rw [hread, float.inj hword]
      · cases hword
  · intro hread
    rw [hfirst hread, hread]

theorem ofWord_eq_string_iff
    {t : String} :
    ofWord s = .string t ↔ t = s ∧ readInteger? s = none ∧ readFloat? s = none := by
  unfold ofWord
  cases readInteger? s with
  | some m =>
      simp
  | none =>
      cases readFloat? s with
      | some x => simp
      | none => simp [eq_comm]

/-- **The number that a word with a point is read as** is the one that its value rounds to. -/
theorem ofWord_eq_finite_iff
    {negative : Bool} {magnitude : Magnitude} :
    ofWord s = .float (.finite negative magnitude) ↔
      ∃ m places, PointedText s.toList negative m places ∧
        magnitude.Near (m * 10 ^ (-places : Int) * Magnitude.unitsPerOne) := by
  rw [ofWord_eq_float_iff, readFloat?_eq_some_iff]
  constructor
  · rintro ⟨negative', m, places, htext, -, hvalue, -⟩
    unfold Binary64.ofDecimal at hvalue
    split at hvalue
    · rename_i hread
      cases hvalue
      exact ⟨m, places, htext, Magnitude.ofDecimal?_eq_some_iff.1 hread⟩
    · cases hvalue
  · rintro ⟨m, places, htext, hnear⟩
    have hvalue : Binary64.ofDecimal negative m (-places) = .finite negative magnitude := by
      rw [Binary64.ofDecimal, Magnitude.ofDecimal?_eq_some_iff.2 hnear]
    rw [← hvalue]
    refine ⟨negative, m, places, htext, Binary64.read?_of_pointed htext, rfl, ?_⟩
    rw [hvalue]
    rfl

/--
**Every word has exactly one type.**  It is the integer that it denotes if it is a sign,
if any, and digits, and the integer has 64 bits; it is the binary number that it is read
as if it is a sign, if any, and digits with one point, and the number is finite; and in
every other case it is its own text.
-/
theorem ofWord_partition
    (s : String) :
    (∀ n, ofWord s = .integer n ↔
      IntegerText s.toList n ∧ -2 ^ 63 ≤ n ∧ n ≤ 2 ^ 63 - 1)
      ∧
    (∀ x, ofWord s = .float x ↔
      ∃ negative m places, PointedText s.toList negative m places ∧
        Binary64.read? s = some x ∧ x = .ofDecimal negative m (-places) ∧ x.isFinite = true)
      ∧
    (∀ t, ofWord s = .string t ↔
      t = s ∧
        (∀ n, IntegerText s.toList n → ¬ (-2 ^ 63 ≤ n ∧ n ≤ 2 ^ 63 - 1)) ∧
        ∀ negative m places, PointedText s.toList negative m places →
          (Binary64.ofDecimal negative m (-places)).isFinite = false) := by
  have hinteger : readInteger? s = none ↔
      ∀ n, IntegerText s.toList n → ¬ (-2 ^ 63 ≤ n ∧ n ≤ 2 ^ 63 - 1) := by
    rw [Option.eq_none_iff_forall_ne_some]
    refine forall_congr' fun n => ?_
    rw [Ne, readInteger?_eq_some_iff]
    exact not_and
  refine ⟨fun n => ?_, fun x => ?_, fun t => ?_⟩
  · rw [ofWord_eq_integer_iff, readInteger?_eq_some_iff]
  · rw [ofWord_eq_float_iff, readFloat?_eq_some_iff]
  · rw [ofWord_eq_string_iff, hinteger, readFloat?_eq_none_iff]

/-- An exponent makes a word a text. -/
example : ofWord "1e5" = .string "1e5" := by
  cbv

end Value

end FieldQuery
