import FieldQuery.Number.Binary64
import FieldQuery.Number.Notation

/-!
# Dates and times

A moment is a date, a time of day, or a date with a time of day, which may say how far
it is ahead of universal time.  It is read in several spellings and written in one:
numbers of fixed width, the seconds always, and only as many places behind them as they
need.
-/

namespace FieldQuery

namespace Toml

/-- A day of a year. -/
structure Date where
  year : Nat
  month : Nat
  day : Nat
deriving DecidableEq, Repr

/-- A time of day. -/
structure TimeOfDay where
  hour : Nat
  minute : Nat
  second : Nat
  nanosecond : Nat
deriving DecidableEq, Repr

/-- What a time of day refers to. -/
inductive Zone where
  | universal
  /-- A distance in minutes. -/
  | ahead (minutes : Int)
deriving DecidableEq, Repr

/-- A date, a time of day, or both. -/
inductive Moment where
  | date (d : Date)
  | time (t : TimeOfDay)
  | both (d : Date) (t : TimeOfDay) (zone : Option Zone)
deriving DecidableEq, Repr

/-- A number of exactly `count` digits between two others, and what follows it. -/
def readCount? (count low high : Nat) (cs : List Char) : Option (Nat × List Char) :=
  let ds := cs.take count
  let n := digitsValue ds
  if ds.length = count ∧ ds.all Char.isDigit ∧ low ≤ n ∧ n ≤ high then
    some (n, cs.drop count)
  else
    none

/-- What follows a given character. -/
def behind? (c : Char) : List Char → Option (List Char)
  | [] => none
  | d :: cs => if d = c then some cs else none

/-- The number of days of a month. -/
def daysIn (year month : Nat) : Nat :=
  if month = 2 then
    if year % 4 = 0 ∧ (year % 100 ≠ 0 ∨ year % 400 = 0) then 29 else 28
  else if month = 4 ∨ month = 6 ∨ month = 9 ∨ month = 11 then 30
  else 31

/-- A date, and what follows it. -/
def readDate? (cs : List Char) : Option (Date × List Char) := do
  let (year, cs) ← readCount? 4 0 9999 cs
  let cs ← behind? '-' cs
  let (month, cs) ← readCount? 2 1 12 cs
  let cs ← behind? '-' cs
  let (day, cs) ← readCount? 2 1 (daysIn year month) cs
  some (⟨year, month, day⟩, cs)

/-- The nanoseconds that the places behind a second denote; those behind the ninth are dropped. -/
def nanoseconds (ds : List Char) : Nat :=
  let kept := ds.take 9
  digitsValue kept * Nat.pow 10 (9 - kept.length)

/-- The fraction of a second in nanoseconds, if there is one, and what follows it. -/
def readFractionOfSecond? : List Char → Option (Nat × List Char)
  | '.' :: cs =>
      let ds := cs.takeWhile Char.isDigit
      if ds.isEmpty then none else some (nanoseconds ds, cs.dropWhile Char.isDigit)
  | cs => some (0, cs)

/--
A time of day, and what follows it.  The seconds may be left out, and a minute may have
a leap second.
-/
def readTime? (cs : List Char) : Option (TimeOfDay × List Char) := do
  let (hour, cs) ← readCount? 2 0 23 cs
  let cs ← behind? ':' cs
  let (minute, cs) ← readCount? 2 0 59 cs
  match cs with
  | ':' :: cs =>
      let (second, cs) ← readCount? 2 0 60 cs
      let (nanosecond, cs) ← readFractionOfSecond? cs
      some (⟨hour, minute, second, nanosecond⟩, cs)
  | cs => some (⟨hour, minute, 0, 0⟩, cs)

/-- The zone that ends a moment, none if nothing is left. -/
def readZone? : List Char → Option (Option Zone)
  | [] => some none
  | ['Z'] => some (some .universal)
  | ['z'] => some (some .universal)
  | c :: cs => do
      guard (c = '+' ∨ c = '-')
      let (hours, cs) ← readCount? 2 0 23 cs
      let cs ← behind? ':' cs
      let (minutes, cs) ← readCount? 2 0 59 cs
      guard cs.isEmpty
      let distance : Int := 60 * hours + minutes
      some (some (.ahead (if c = '-' then -distance else distance)))

/-- The moment that a word is; a letter or a space stands between its date and its time. -/
def Moment.read? (word : List Char) : Option Moment :=
  match readDate? word with
  | none =>
      match readTime? word with
      | some (t, []) => some (.time t)
      | _ => none
  | some (d, []) => some (.date d)
  | some (d, c :: cs) =>
      if c = 'T' ∨ c = 't' ∨ c = ' ' then
        match readTime? cs with
        | none => none
        | some (t, rest) => (readZone? rest).map (.both d t)
      else
        none

/-- A number with zeros in front of it up to a width. -/
def writeCount (width n : Nat) : List Char :=
  let ds := natDigits n
  List.replicate (width - ds.length) '0' ++ ds

/-- A date as it is written. -/
def Date.write (d : Date) : List Char :=
  writeCount 4 d.year ++ '-' :: writeCount 2 d.month ++ '-' :: writeCount 2 d.day

/-- The places behind a second, without zeros at their end. -/
def writeNanoseconds (n : Nat) : List Char :=
  if n = 0 then []
  else '.' :: ((writeCount 9 n).reverse.dropWhile (· = '0')).reverse

/-- A time of day as it is written. -/
def TimeOfDay.write (t : TimeOfDay) : List Char :=
  writeCount 2 t.hour ++ ':' :: writeCount 2 t.minute ++ ':' :: writeCount 2 t.second
    ++ writeNanoseconds t.nanosecond

/-- A zone as it is written. -/
def Zone.write : Zone → List Char
  | universal => ['Z']
  | ahead minutes =>
      let distance := minutes.natAbs
      (if minutes < 0 then '-' else '+')
        :: writeCount 2 (distance / 60) ++ ':' :: writeCount 2 (distance % 60)

/-- A moment as it is written. -/
def Moment.write : Moment → List Char
  | date d => d.write
  | time t => t.write
  | both d t none => d.write ++ 'T' :: t.write
  | both d t (some zone) => d.write ++ 'T' :: t.write ++ zone.write

end Toml

end FieldQuery
