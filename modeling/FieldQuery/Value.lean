import FieldQuery.Number.Notation
import FieldQuery.Text.Showing

/-!
# Typed literal values

A bare word is read as the most specific of three things: an integer of 64 bits,
a finite decimal with a point, or a text.  Nothing is ever rounded to an integer
or made infinite; what does not fit stays a text with its spelling.
-/

namespace FieldQuery

/-- The value a literal carries. -/
inductive Value where
  | integer (n : Int)
  | float (x : Binary64)
  | string (s : String)
deriving DecidableEq, Repr

namespace Value

/-- The integers that fit in 64 bits. -/
def fits (n : Int) : Bool :=
  -(Nat.pow 2 63) ≤ n && n < Nat.pow 2 63

/-- At most one sign, then one or more ASCII digits, in the range of 64 bits. -/
def readInteger? (s : String) : Option Int :=
  let (negative, ds) := splitSign s.toList
  if ds ≠ [] ∧ ds.all Char.isDigit then
    let n : Int := digitsValue ds
    let n := if negative then -n else n
    if fits n then some n else none
  else
    none

/--
At most one sign, then ASCII digits around exactly one point, with at least one
digit in all.
-/
def isPointed (s : String) : Bool :=
  let cs := (splitSign s.toList).2
  match cs.dropWhile Char.isDigit with
  | '.' :: fraction =>
      fraction.all Char.isDigit &&
        (!(cs.takeWhile Char.isDigit).isEmpty || !fraction.isEmpty)
  | _ => false

/-- The finite number that a text with a point denotes. -/
def readFloat? (s : String) : Option Binary64 :=
  if isPointed s then
    (Binary64.read? s).filter Binary64.isFinite
  else
    none

/-- The value of a bare word. -/
def ofWord (s : String) : Value :=
  match readInteger? s with
  | some n => integer n
  | none =>
      match readFloat? s with
      | some x => float x
      | none => string s

/-- A value as reports show it: numbers plain, texts quoted. -/
def display : Value → String
  | integer n => String.ofList (intText n)
  | float x => x.write Layout.report
  | string s => Text.quoted s

/--
Equality of values, numbers being compared as arithmetic does: not-a-number
equals nothing.
-/
def agrees : Value → Value → Bool
  | integer m, integer n => m = n
  | float x, float y => x.agrees y
  | string s, string t => s = t
  | _, _ => false

end Value

end FieldQuery
