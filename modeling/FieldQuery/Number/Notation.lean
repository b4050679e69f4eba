import FieldQuery.Number.Shortest

/-!
# How numbers are written

A number is written with its shortest digits.  A layout says which of them are
written positionally, how an exponent looks, and which digits win a tie.  Two
layouts are in use: one for reports and one for interchange.
-/

namespace FieldQuery

/-- The decisions of a number format. -/
structure Layout where
  /-- The least power of ten of the leading digit that is written positionally. -/
  plainFrom : Int
  /-- The least power of ten of the leading digit above that needs an exponent again. -/
  plainBelow : Int
  /-- Whether a positive exponent carries a plus sign. -/
  signedExponent : Bool
  tie : Tie

namespace Layout

/-- Reports: positional from `0.0001` up to `10 ^ 16`, exponents as in `1e16`; a tie goes up. -/
def report : Layout where
  plainFrom := -4
  plainBelow := 16
  signedExponent := false
  tie := .up

/--
Interchange: positional from `0.00001` up to `10 ^ 16`, exponents as in `1e+16`; a tie
goes to even.
-/
def interchange : Layout where
  plainFrom := -5
  plainBelow := 16
  signedExponent := true
  tie := .even

end Layout

/-- The digits of a natural number. -/
def natDigits (n : Nat) : List Char :=
  Nat.toDigits 10 n

/-- The digits of an integer behind its sign, if it has one. -/
def intText (n : Int) : List Char :=
  if n < 0 then '-' :: natDigits n.natAbs
  else natDigits n.natAbs

namespace Decimal

/-- A decimal written out, with at least one digit on each side of the point. -/
def plain (d : Decimal) : List Char :=
  let ds := natDigits d.digits
  if 0 ≤ d.exponent then
    ds ++ List.replicate d.exponent.toNat '0' ++ ['.', '0']
  else
    let places := (-d.exponent).toNat
    if places < ds.length then
      ds.take (ds.length - places) ++ '.' :: ds.drop (ds.length - places)
    else
      '0' :: '.' :: List.replicate (places - ds.length) '0' ++ ds

/-- The power of ten of the leading digit. -/
def leading (d : Decimal) : Int :=
  d.exponent + (natDigits d.digits).length - 1

/-- A decimal with one digit before the point and an exponent. -/
def scientific (layout : Layout) (d : Decimal) : List Char :=
  let mantissa :=
    match natDigits d.digits with
    | [] => []
    | [c] => [c]
    | c :: cs => c :: '.' :: cs
  let sign := if layout.signedExponent ∧ 0 ≤ d.leading then ['+'] else []
  mantissa ++ 'e' :: sign ++ intText d.leading

/-- A decimal in the form its layout chooses. -/
def write (layout : Layout) (d : Decimal) : List Char :=
  if layout.plainFrom ≤ d.leading ∧ d.leading < layout.plainBelow then d.plain
  else d.scientific layout

end Decimal

namespace Binary64

/-- A finite magnitude in a layout. -/
def writeMagnitude (layout : Layout) (m : Magnitude) : List Char :=
  if m.significand = 0 then ['0', '.', '0']
  else (m.shortest layout.tie).write layout

/-- A number in a layout; the numbers that are not finite have names. -/
def write (layout : Layout) : Binary64 → String
  | nan => "NaN"
  | infinite negative => if negative then "-inf" else "inf"
  | finite negative m =>
      String.ofList ((if negative then ['-'] else []) ++ writeMagnitude layout m)

end Binary64

end FieldQuery
