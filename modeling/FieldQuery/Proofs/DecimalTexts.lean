import Mathlib.Tactic
import FieldQuery.Number.Notation

/-!
# Numbers in texts

Digits denote a number, a sign in front of them may turn it round, and a point and an
exponent say how many of them are behind the ones.  What the readers of numbers compute
from a text is compared with these descriptions.

**Results.**

* `takeWhile_append_of_head?`, `dropWhile_append_of_head?`: scanning up to what stops it;
* `digits_iff`: what digits denote is what is computed from them;
* `signed_splitSign`, `Signed.splitSign_eq`: the sign in front of a number;
* `readDecimal?_of_point`, `readDecimal?_of_whole`: digits around a point, or without one,
  and the exponent behind them;
* `read?_of_signed`: a decimal with a sign is no name.
-/

namespace FieldQuery

section Scanning

variable {α : Type} {p : α → Bool} {cs rest : List α}

/-- What satisfies a condition is taken up to the first element that does not. -/
theorem takeWhile_append_of_head?
    (hcs : ∀ c ∈ cs, p c = true) (hrest : ∀ c ∈ rest.head?, p c = false) :
    (cs ++ rest).takeWhile p = cs := by
  have hstop : rest.takeWhile p = [] := by
    cases rest with
    | nil => rfl
    | cons d rest => simp [hrest d rfl]
  rw [List.takeWhile_append_of_pos hcs, hstop, List.append_nil]

/-- What satisfies a condition is dropped up to the first element that does not. -/
theorem dropWhile_append_of_head?
    (hcs : ∀ c ∈ cs, p c = true) (hrest : ∀ c ∈ rest.head?, p c = false) :
    (cs ++ rest).dropWhile p = rest := by
  rw [List.dropWhile_append_of_pos hcs]
  cases rest with
  | nil => rfl
  | cons d rest => simp [hrest d rfl]

end Scanning

section Digits

variable {cs ds : List Char} {n : Nat}

/-- Decimal digits, and the number that they denote. -/
inductive Digits : List Char → Nat → Prop
  | none :
      Digits [] 0
  | more
      {cs : List Char} {n d : Nat}
      (hdigits : Digits cs n)
      (hd : d < 10) :
      Digits (cs ++ [Nat.digitChar d]) (10 * n + d)

theorem exists_digitChar
    {c : Char} (hc : c.isDigit = true) :
    ∃ d < 10, c = Nat.digitChar d := by
  rw [Char.isDigit_iff_toNat] at hc
  obtain ⟨hlow, hhigh⟩ : 48 ≤ c.toNat ∧ c.toNat ≤ 57 := hc
  refine ⟨c.toNat - 48, by omega, ?_⟩
  apply Char.toNat_inj.1
  rw [Nat.toNat_digitChar_of_lt_ten (by omega)]
  omega

/-- Digits behind others are as many places of the number that all of them denote. -/
theorem digitsValue_append
    (cs ds : List Char) :
    digitsValue (cs ++ ds) = 10 ^ ds.length * digitsValue cs + digitsValue ds := by
  unfold digitsValue
  rw [Nat.ofDigitChars_append, Nat.ofDigitChars_eq_ofDigitChars_zero]

/-- What digits denote is computed from them. -/
theorem digits_iff :
    Digits cs n ↔ (∀ c ∈ cs, c.isDigit = true) ∧ digitsValue cs = n := by
  constructor
  · intro hdigits
    induction hdigits with
    | none =>
        exact ⟨List.forall_mem_nil _, rfl⟩
    | @more cs n d _ hd ih =>
        obtain ⟨hall, hvalue⟩ := ih
        refine ⟨?_, ?_⟩
        · rw [List.forall_mem_append]
          refine ⟨hall, ?_⟩
          simp [Nat.isDigit_digitChar, hd]
        · rw [digitsValue_append, hvalue]
          simp [digitsValue, Nat.ofDigitChars_cons_digitChar_of_lt_ten hd]
  · rintro ⟨hall, rfl⟩
    induction cs using List.reverseRecOn with
    | nil =>
        exact .none
    | append_singleton cs c ih =>
        rw [List.forall_mem_append, List.forall_mem_singleton] at hall
        obtain ⟨d, hd, rfl⟩ := exists_digitChar hall.2
        have hvalue : digitsValue (cs ++ [d.digitChar]) = 10 * digitsValue cs + d := by
          rw [digitsValue_append]
          simp [digitsValue, Nat.ofDigitChars_cons_digitChar_of_lt_ten hd]
        rw [hvalue]
        exact .more (ih hall.1) hd

theorem isDigit_of_mem_natDigits
    {n : Nat} :
    ∀ c ∈ natDigits n, c.isDigit = true :=
  fun _ hmem => Nat.isDigit_of_mem_toDigits (by decide) (by decide) hmem

theorem digitsValue_natDigits
    (n : Nat) :
    digitsValue (natDigits n) = n :=
  Nat.ofDigitChars_toDigits (by decide) (by decide)

theorem digits_natDigits
    (n : Nat) :
    Digits (natDigits n) n :=
  digits_iff.2 ⟨isDigit_of_mem_natDigits, digitsValue_natDigits n⟩

theorem Digits.append
    {m : Nat} (hcs : Digits cs m) (hds : Digits ds n) :
    Digits (cs ++ ds) (10 ^ ds.length * m + n) := by
  obtain ⟨hcsAll, rfl⟩ := digits_iff.1 hcs
  obtain ⟨hdsAll, rfl⟩ := digits_iff.1 hds
  exact digits_iff.2 ⟨List.forall_mem_append.2 ⟨hcsAll, hdsAll⟩, digitsValue_append cs ds⟩

theorem digits_zeros
    (n : Nat) :
    Digits (List.replicate n '0') 0 := by
  induction n with
  | zero =>
      exact .none
  | succ n ih =>
      rw [List.replicate_succ']
      exact .more ih (Nat.succ_pos 9)

end Digits

section Signs

variable {cs ds : List Char} {negative : Bool}

/-- A text with at most one sign in front, whether that is a minus, and what follows it. -/
inductive Signed : List Char → Bool → List Char → Prop
  | none
      {cs : List Char} :
      Signed cs false cs
  | plus
      {cs : List Char} :
      Signed ('+' :: cs) false cs
  | minus
      {cs : List Char} :
      Signed ('-' :: cs) true cs

/-- A sign that is split off stood in front. -/
theorem signed_splitSign
    (cs : List Char) :
    Signed cs (splitSign cs).1 (splitSign cs).2 := by
  unfold splitSign
  split
  · exact .plus
  · exact .minus
  · exact .none

/-- Only one sign is split off. -/
theorem Signed.splitSign_eq
    (hsigned : Signed cs negative ds) (hplus : ds.head? ≠ some '+') (hminus : ds.head? ≠ some '-') :
    splitSign cs = (negative, ds) := by
  cases hsigned with
  | none =>
      unfold splitSign
      split
      · exact absurd rfl hplus
      · exact absurd rfl hminus
      · rfl
  | plus =>
      rfl
  | minus =>
      rfl

/-- A digit or a point is no sign. -/
theorem Signed.splitSign_of_head
    (hsigned : Signed cs negative ds)
    (hhead : ∀ c ∈ ds.head?, c.isDigit = true ∨ c = '.') :
    splitSign cs = (negative, ds) := by
  refine hsigned.splitSign_eq ?_ ?_
  · intro hplus
    have hfirst := hhead '+' hplus
    revert hfirst
    decide
  · intro hminus
    have hfirst := hhead '-' hminus
    revert hfirst
    decide

/-- What follows a sign is in the text. -/
theorem Signed.mem
    (hsigned : Signed cs negative ds) {c : Char} (hc : c ∈ ds) :
    c ∈ cs := by
  cases hsigned with
  | none => exact hc
  | plus => exact List.mem_cons_of_mem _ hc
  | minus => exact List.mem_cons_of_mem _ hc

/-- A natural number behind a sign. -/
def withSign (negative : Bool) (n : Nat) : Int :=
  if negative then -n else n

/-- The text of an integer is a sign, if it has one, and digits. -/
theorem signed_intText
    (n : Int) :
    ∃ negative, Signed (intText n) negative (natDigits n.natAbs) ∧
      withSign negative n.natAbs = n := by
  unfold intText
  split
  · refine ⟨true, .minus, ?_⟩
    rw [withSign, if_pos rfl]
    omega
  · refine ⟨false, .none, ?_⟩
    rw [withSign, if_neg Bool.false_ne_true]
    omega

/-- Digits around a point begin with one of them or with the point. -/
theorem head?_of_point
    {whole fraction : List Char} (hall : ∀ c ∈ whole ++ fraction, c.isDigit = true) :
    ∀ c ∈ (whole ++ '.' :: fraction).head?, c.isDigit = true ∨ c = '.' := by
  intro c hc
  cases whole with
  | nil =>
      obtain rfl : '.' = c := by simpa using hc
      exact .inr rfl
  | cons d whole =>
      obtain rfl : d = c := by simpa using hc
      exact .inl (hall d List.mem_cons_self)

end Signs

section Reading

namespace Binary64

variable {negative : Bool} {whole fraction tail cs : List Char} {e : Int}

/-- An exponent is set off from the digits in front of it. -/
theorem head?_of_readExponent?
    (htail : readExponent? tail = some e) :
    ∀ c ∈ tail.head?, c.isDigit = false ∧ c ≠ '.' := by
  cases tail with
  | nil =>
      simp
  | cons c tail =>
      have hletter : c = 'e' ∨ c = 'E' := by
        by_contra hother
        rw [readExponent?, if_neg hother] at htail
        cases htail
      intro d hd
      obtain rfl : c = d := by simpa using hd
      rcases hletter with rfl | rfl <;> decide

/-- What the reader makes of a letter, a sign and digits. -/
theorem readExponent?_of_signed
    {n : Nat} (hsigned : Signed cs negative (natDigits n)) :
    readExponent? ('e' :: cs) = some (withSign negative n) := by
  have hsplit : splitSign cs = (negative, natDigits n) :=
    hsigned.splitSign_of_head fun c hc => .inl (isDigit_of_mem_natDigits c (List.mem_of_head? hc))
  simp only [readExponent?, true_or, if_true, hsplit, digitsValue_natDigits]
  exact if_pos ⟨Nat.toDigits_ne_nil, List.all_eq_true.2 isDigit_of_mem_natDigits⟩

/-- Digits around a point, and an exponent behind them. -/
theorem readDecimal?_of_point
    {n : Nat}
    (hdigits : Digits (whole ++ fraction) n) (hne : whole ++ fraction ≠ [])
    (htail : readExponent? tail = some e) :
    readDecimal? negative (whole ++ '.' :: (fraction ++ tail)) =
      some (ofDecimal negative n (e - fraction.length)) := by
  obtain ⟨hall, rfl⟩ := digits_iff.1 hdigits
  obtain ⟨hwhole, hfraction⟩ := List.forall_mem_append.1 hall
  have hpoint : ∀ c ∈ ('.' :: (fraction ++ tail)).head?, c.isDigit = false := by
    simp
  have hend := fun c hc => (head?_of_readExponent? htail c hc).1
  simp only [readDecimal?, takeWhile_append_of_head? hwhole hpoint,
    dropWhile_append_of_head? hwhole hpoint, takeWhile_append_of_head? hfraction hend,
    dropWhile_append_of_head? hfraction hend, htail, Option.map_some]
  exact if_neg fun hnone => hne (List.append_eq_nil_iff.2 hnone)

/-- Digits without a point, and an exponent behind them. -/
theorem readDecimal?_of_whole
    {n : Nat}
    (hdigits : Digits whole n) (hne : whole ≠ []) (htail : readExponent? tail = some e) :
    readDecimal? negative (whole ++ tail) = some (ofDecimal negative n e) := by
  obtain ⟨hall, rfl⟩ := digits_iff.1 hdigits
  have hend := fun c hc => (head?_of_readExponent? htail c hc).1
  -- the reader looks for a point first
  have hpoint : ∀ ds, tail ≠ '.' :: ds := by
    rintro ds rfl
    exact (head?_of_readExponent? htail '.' rfl).2 rfl
  simp only [readDecimal?, takeWhile_append_of_head? hall hend,
    dropWhile_append_of_head? hall hend, htail, Option.map_some, List.append_nil,
    List.length_nil, Nat.cast_zero, sub_zero]
  exact if_neg fun hnone => hne hnone.1

/-- A decimal begins with a digit or a point. -/
theorem head?_of_readDecimal?
    {x : Binary64} (hread : readDecimal? negative cs = some x) :
    ∃ c rest, cs = c :: rest ∧ (c.isDigit = true ∨ c = '.') := by
  cases cs with
  | nil =>
      cases hread
  | cons c rest =>
      refine ⟨c, rest, rfl, ?_⟩
      by_contra hother
      obtain ⟨hdigit, hpoint⟩ := not_or.1 hother
      have hmatch : ∀ ds, c :: rest ≠ '.' :: ds := fun ds hds => hpoint (List.cons.inj hds).1
      simp [readDecimal?, hdigit] at hread

/-- What is read as a decimal behind its sign is no name. -/
theorem read?_of_signed
    {s : String} {x : Binary64} (hsigned : Signed s.toList negative cs)
    (hread : readDecimal? negative cs = some x) :
    read? s = some x := by
  have hname : ∀ c : Char, c.toLower = 'i' ∨ c.toLower = 'n' →
      ¬ (c.isDigit = true ∨ c = '.') := by
    rintro c hlower (hdigit | rfl)
    · obtain ⟨d, hd, rfl⟩ := exists_digitChar hdigit
      revert d
      decide
    · revert hlower
      decide
  obtain ⟨c, rest, rfl, hhead⟩ := head?_of_readDecimal? hread
  have hsplit : splitSign s.toList = (negative, c :: rest) := by
    refine hsigned.splitSign_of_head fun d hd => ?_
    obtain rfl : c = d := by simpa using hd
    exact hhead
  simp only [read?, hsplit]
  split
  · rename_i hlower
    exact absurd hhead (hname c (.inl (List.cons.inj hlower).1))
  · rename_i hlower
    exact absurd hhead (hname c (.inl (List.cons.inj hlower).1))
  · rename_i hlower
    exact absurd hhead (hname c (.inr (List.cons.inj hlower).1))
  · exact hread

end Binary64

end Reading

end FieldQuery
