import FieldQuery.Toml.Basic

/-!
# Unquoted TOML values

**Input**: a word.

**Output**: the truth value, number or moment that it is, or nothing if it is none.

**Algorithm**: a word is told to be a number by its shape first.  Underscores group its
digits; they are taken out, and what is left is read.  The shape of an integer is loose:
behind an underscore it may hold more than digits, and such a word is an unreadable
number, as one too large is.
-/

namespace FieldQuery

namespace Toml

/-- A hexadecimal digit. -/
def isHexDigit (c : Char) : Bool :=
  c.isDigit || ('a' ≤ c && c ≤ 'f') || ('A' ≤ c && c ≤ 'F')

/-- An octal digit. -/
def isOctalDigit (c : Char) : Bool :=
  '0' ≤ c && c ≤ '7'

/-- A binary digit. -/
def isBinaryDigit (c : Char) : Bool :=
  c = '0' || c = '1'

/-- What a digit is worth. -/
def digitValue (c : Char) : Nat :=
  if c.isDigit then c.toNat - '0'.toNat
  else c.toLower.toNat - 'a'.toNat + 10

/-- The number that digits denote in a base. -/
def numeral (base : Nat) (ds : List Char) : Nat :=
  ds.foldl (fun n c => base * n + digitValue c) 0

/--
A text without its underscores, each of which has to stand between two digits.  The flag
says whether a digit is in front of the text.
-/
def ungroupFrom? (isDigit : Char → Bool) (afterDigit : Bool) : List Char → Option (List Char)
  | [] => some []
  | ['_'] => none
  | '_' :: c :: cs =>
      if afterDigit && isDigit c then (ungroupFrom? isDigit true cs).map (c :: ·) else none
  | c :: cs => (ungroupFrom? isDigit (isDigit c) cs).map (c :: ·)

/-- A word without its underscores, each of which has to stand between two digits. -/
def ungroup? (isDigit : Char → Bool) (word : List Char) : Option (List Char) :=
  ungroupFrom? isDigit false word

/-- The integers in range: those that fit in 128 bits, with a sign or without. -/
def fits (n : Int) : Bool :=
  -(Nat.pow 2 127) ≤ n && n < Nat.pow 2 128

/-- An integer if it is in range. -/
def ofInt (n : Int) : Toml :=
  if fits n then integer n else unreadable

/-- An integer in a base that its first two characters told; it may lack digits. -/
def readBased? (base : Nat) (isDigit : Char → Bool) (cs : List Char) : Option Toml :=
  if cs.all fun c => isDigit c || c = '_' then
    (ungroup? isDigit cs).map fun ds =>
      if ds.isEmpty then unreadable else ofInt (numeral base ds)
  else
    none

/--
Whether a word behind its sign has the shape of an integer: digits without a needless
zero in front, and perhaps more behind an underscore, but no point and no exponent.
-/
def isWhole (cs : List Char) : Bool :=
  match cs.dropWhile Char.isDigit with
  | [] => cs = ['0'] || (!cs.isEmpty && cs.head? ≠ some '0')
  | c :: rest =>
      c = '_' && cs.head? ≠ some '0' && rest.all fun d => d ≠ '.' && d ≠ 'e' && d ≠ 'E'

/-- A decimal integer with an optional sign.  The letters of other bases count as digits first. -/
def readDecimal? (word : List Char) : Option Toml :=
  if isWhole (splitSign word).2 then
    (ungroup? isHexDigit word).map fun text =>
      let (negative, ds) := splitSign text
      if ds.all Char.isDigit then
        ofInt (if negative then -↑(digitsValue ds) else ↑(digitsValue ds))
      else
        unreadable
  else
    none

/-- An integer: decimal with an optional sign, or in one of three other bases without. -/
def readInteger? : List Char → Option Toml
  | '0' :: 'x' :: cs => readBased? 16 isHexDigit cs
  | '0' :: 'o' :: cs => readBased? 8 isOctalDigit cs
  | '0' :: 'b' :: cs => readBased? 2 isBinaryDigit cs
  | word => readDecimal? word

/-- The digits behind a point, if there is one, and what follows them. -/
def readFraction? : List Char → Option (List Char × List Char)
  | '.' :: cs =>
      let ds := cs.takeWhile Char.isDigit
      if ds.isEmpty then none else some (ds, cs.dropWhile Char.isDigit)
  | cs => some ([], cs)

/-- A number with a point or an exponent, behind its sign and without underscores. -/
def readUnsigned? (negative : Bool) (cs : List Char) : Option Binary64 := do
  let whole := cs.takeWhile Char.isDigit
  let tail := cs.dropWhile Char.isDigit
  guard (!whole.isEmpty && !tail.isEmpty)
  let (fraction, tail) ← readFraction? tail
  let exponent ← Binary64.readExponent? tail
  some (.ofDecimal negative (digitsValue (whole ++ fraction)) (exponent - fraction.length))

/-- Whether a number behind its sign starts with a zero and has more digits before its point. -/
def hasNeedlessZero (cs : List Char) : Bool :=
  let whole := cs.takeWhile fun c => c.isDigit || c = '_'
  cs.head? = some '0' && 1 < (whole.filter Char.isDigit).length

/-- With an optional sign, a number with a point or an exponent, or the word `inf` or `nan`. -/
def readFloat? (word : List Char) : Option Toml :=
  let (negative, cs) := splitSign word
  if cs = ['i', 'n', 'f'] then some (float (.infinite negative))
  else if cs = ['n', 'a', 'n'] then some (float .nan)
  else if hasNeedlessZero cs then none
  else do
    let text ← ungroup? Char.isDigit word
    let x ← readUnsigned? negative (splitSign text).2
    some (if x.isFinite then float x else unreadable)

/-- The value of a word. -/
def wordValue? (word : List Char) : Option Toml :=
  if word = ['t', 'r', 'u', 'e'] then some (boolean true)
  else if word = ['f', 'a', 'l', 's', 'e'] then some (boolean false)
  else (readInteger? word).or ((readFloat? word).or ((Moment.read? word).map moment))

end Toml

end FieldQuery
