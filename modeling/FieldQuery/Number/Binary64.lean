/-!
# Binary floating-point numbers of 64 bits

**Input**: a decimal text.

**Output**: the binary64 number nearest to it.

All arithmetic is exact: a finite number is a whole multiple of `2 ^ (-1074)`,
the least positive number of the format, so rounding a decimal means dividing
two natural numbers once and taking the nearest representable multiple.
-/

namespace FieldQuery

/--
A finite magnitude: `significand * 2 ^ exponent` units of `2 ^ (-1074)`.  The
exponent is the least one that holds the significand in 53 bits, so a magnitude
has one representation.
-/
structure Magnitude where
  significand : Nat
  exponent : Nat
  normal :
    significand < Nat.pow 2 53 ∧ exponent ≤ 2045 ∧
      (exponent = 0 ∨ Nat.pow 2 52 ≤ significand)
deriving DecidableEq, Repr

/-- A binary64 number.  The zero has two signs; not-a-number has none. -/
inductive Binary64 where
  | nan
  | infinite (negative : Bool)
  | finite (negative : Bool) (magnitude : Magnitude)
deriving DecidableEq, Repr

namespace Magnitude

/-- Nothing. -/
def zero : Magnitude :=
  ⟨0, 0, by decide⟩

/-- The magnitude in units of `2 ^ (-1074)`. -/
def units (m : Magnitude) : Nat :=
  m.significand * Nat.pow 2 m.exponent

/-- The quotient of two naturals rounded to nearest, a half going to the even neighbour. -/
def roundDiv (num den : Nat) : Nat :=
  let q := num / den
  let r := num % den
  if 2 * r < den then q
  else if den < 2 * r then q + 1
  else if q % 2 = 0 then q
  else q + 1

/-- The magnitude with a given significand and exponent, when these are its normal form. -/
def ofParts? (significand exponent : Nat) : Option Magnitude :=
  if h : significand < Nat.pow 2 53 ∧ exponent ≤ 2045
      ∧ (exponent = 0 ∨ Nat.pow 2 52 ≤ significand) then
    some ⟨significand, exponent, h⟩
  else
    none

/--
The magnitude nearest to `num / den` units, a half going to the even
significand; none when it is beyond the greatest one.
-/
def ofRatio? (num den : Nat) : Option Magnitude :=
  let exponent := (num / den).log2 - 52
  let significand := roundDiv num (den * Nat.pow 2 exponent)
  if significand = Nat.pow 2 53 then
    ofParts? (Nat.pow 2 52) (exponent + 1)
  else
    ofParts? significand exponent

/--
The magnitude nearest to `digits * 10 ^ exponent`; none when it is beyond the
greatest one.  Exponents whose result is certain without any division (`8`
divides less and `10` more than each decimal place is worth) are decided first.
-/
def ofDecimal? (digits : Nat) (exponent : Int) : Option Magnitude :=
  if digits = 0 then some zero
  else if exponent < 0 then
    if (digits.log2 : Int) + 1 + 3 * exponent < -1080 then some zero
    else ofRatio? (digits * Nat.pow 2 1074) (Nat.pow 10 (-exponent).toNat)
  else if 1100 < (digits.log2 : Int) + 3 * exponent then none
  else ofRatio? (digits * Nat.pow 10 exponent.toNat * Nat.pow 2 1074) 1

end Magnitude

namespace Binary64

/-- Whether a number is neither infinite nor not-a-number. -/
def isFinite : Binary64 → Bool
  | finite _ _ => true
  | _ => false

/-- The number with the given sign nearest to `digits * 10 ^ exponent`. -/
def ofDecimal (negative : Bool) (digits : Nat) (exponent : Int) : Binary64 :=
  match Magnitude.ofDecimal? digits exponent with
  | some m => finite negative m
  | none => infinite negative

/--
Equality of numbers as arithmetic understands it: nothing equals not-a-number,
and the two zeros are equal.
-/
def agrees : Binary64 → Binary64 → Bool
  | nan, _ => false
  | _, nan => false
  | infinite a, infinite b => a == b
  | finite a m, finite b n => m = n && (a == b || m = Magnitude.zero)
  | _, _ => false

end Binary64

/-- The sign at the front of a number's text, and what follows it. -/
def splitSign : List Char → Bool × List Char
  | '+' :: cs => (false, cs)
  | '-' :: cs => (true, cs)
  | cs => (false, cs)

/-- The number denoted by decimal digits. -/
def digitsValue (cs : List Char) : Nat :=
  Nat.ofDigitChars 10 cs 0

namespace Binary64

/--
The exponent behind a mantissa: nothing, or `e` or `E`, an optional sign and at
least one digit.
-/
def readExponent? : List Char → Option Int
  | [] => some 0
  | c :: cs =>
      if c = 'e' ∨ c = 'E' then
        let (negative, ds) := splitSign cs
        if ds ≠ [] ∧ ds.all Char.isDigit then
          some (if negative then -(digitsValue ds : Int) else digitsValue ds)
        else
          none
      else
        none

/--
An unsigned decimal: digits with at most one point among or around them, at
least one digit in all, then an exponent.
-/
def readDecimal? (negative : Bool) (cs : List Char) : Option Binary64 :=
  let whole := cs.takeWhile Char.isDigit
  let rest := cs.dropWhile Char.isDigit
  let (fraction, tail) :=
    match rest with
    | '.' :: ds => (ds.takeWhile Char.isDigit, ds.dropWhile Char.isDigit)
    | ds => ([], ds)
  if whole = [] ∧ fraction = [] then none
  else
    (readExponent? tail).map fun e =>
      ofDecimal negative (digitsValue (whole ++ fraction)) (e - fraction.length)

/--
The number a text denotes: an optional sign before a decimal or before one of
the words `inf`, `infinity` and `nan` in any case.
-/
def read? (s : String) : Option Binary64 :=
  let (negative, cs) := splitSign s.toList
  match cs.map Char.toLower with
  | ['i', 'n', 'f'] => some (infinite negative)
  | ['i', 'n', 'f', 'i', 'n', 'i', 't', 'y'] => some (infinite negative)
  | ['n', 'a', 'n'] => some nan
  | _ => readDecimal? negative cs

end Binary64

end FieldQuery
