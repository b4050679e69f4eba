import FieldQuery.Number.Binary64

/-!
# The shortest decimal of a binary number

**Input**: a positive finite magnitude.

**Output**: the decimal with the fewest digits among those that round to it.

**Algorithm**: the reals that round to the magnitude form an interval, ends
included exactly when its significand is even.  The grids of multiples of
`10 ^ k` are tried from the coarsest on.  On each, only the two neighbours of
the magnitude itself can be its nearest points, and the first grid with a
neighbour inside the interval gives the answer: the nearer of the two.
-/

namespace FieldQuery

/-- The decimal `digits * 10 ^ exponent`. -/
structure Decimal where
  digits : Nat
  exponent : Int
deriving DecidableEq, Repr

/-- Which of two equally near decimals is taken: the greater, or the even one. -/
inductive Tie where
  | up
  | even
deriving DecidableEq, Repr

namespace Magnitude

/--
The rounding interval of a magnitude in quarters of its own last place: from
halfway to the neighbour below to halfway to the neighbour above.  Below a power
of two the neighbours stand half as far apart.
-/
def interval (m : Magnitude) : Nat × Nat :=
  let low :=
    if m.significand = Nat.pow 2 52 ∧ m.exponent ≠ 0 then 4 * m.significand - 1
    else 4 * m.significand - 2
  (low, 4 * m.significand + 2)

/-- Whether `n` lies between the ends, which belong to the interval of an even magnitude only. -/
def between (m : Magnitude) (low n high : Nat) : Bool :=
  if m.significand % 2 = 0 then low ≤ n && n ≤ high
  else low < n && n < high

/-- The multiple of `10 ^ k` that is nearest to a magnitude, if it rounds to it. -/
def gridPoint? (tie : Tie) (m : Magnitude) (k : Int) : Option Nat :=
  let scale := Nat.pow 2 m.exponent * Nat.pow 10 (-k).toNat
  let step := Nat.pow 2 1076 * Nat.pow 10 k.toNat
  let value := 4 * m.significand * scale
  let low := m.interval.1 * scale
  let high := m.interval.2 * scale
  let below := value / step
  let gap := value % step
  let hit (n : Nat) : Bool := m.between low (n * step) high
  match hit below, hit (below + 1) with
  | true, true =>
      if 2 * gap < step then some below
      else if step < 2 * gap then some (below + 1)
      else
        match tie with
        | .up => some (below + 1)
        | .even => some (if below % 2 = 0 then below else below + 1)
  | true, false => some below
  | false, true => some (below + 1)
  | false, false => none

/-- The first hit on the grids `10 ^ k`, `10 ^ (k - 1)` and so on, `n` grids in all. -/
def search (tie : Tie) (m : Magnitude) (k : Int) : Nat → Option Decimal
  | 0 => none
  | n + 1 =>
      match gridPoint? tie m k with
      | some digits => some ⟨digits, k⟩
      | none => search tie m (k - 1) n

/--
The shortest decimal that rounds to a magnitude.  No magnitude reaches
`10 ^ 309`, and every one has a point of the grid `10 ^ (-324)` in its interval;
the exact value stands in for an empty search.
-/
def shortest (tie : Tie) (m : Magnitude) : Decimal :=
  (search tie m 309 634).getD ⟨m.units * Nat.pow 5 1074, -1074⟩

end Magnitude

end FieldQuery
