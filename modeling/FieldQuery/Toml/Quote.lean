import FieldQuery.Toml.Word

/-!
# Quoted TOML texts

A text stands between double quotes, where a backslash starts an escape, or between
single quotes, where everything stands for itself.  Three quotes of either kind open a
text of several lines, which may hold one or two quotes in a row, at its end too.
-/

namespace FieldQuery

namespace Toml

/-- The characters that need no escape: the tab, and all that are no control characters. -/
def isPlain (c : Char) : Bool :=
  c = '\t' || (0x20 ≤ c.toNat && c.toNat ≠ 0x7F)

/-- The character with a code point given by hexadecimal digits. -/
def codePoint? (ds : List Char) : Option Char :=
  let n := numeral 16 ds
  if ds.all isHexDigit ∧ n.isValidChar then some (Char.ofNat n) else none

/-- The character that a letter behind a backslash stands for. -/
def letterEscape? : Char → Option Char
  | 'b' => some '\x08'
  | 't' => some '\t'
  | 'n' => some '\n'
  | 'f' => some '\x0c'
  | 'r' => some '\r'
  | 'e' => some '\x1b'
  | '"' => some '"'
  | '\\' => some '\\'
  | _ => none

/-- Whether only white space stands before the end of the line, and the line ends. -/
def blankToBreak : List Char → Bool
  | [] => false
  | '\n' :: _ => true
  | '\r' :: '\n' :: _ => true
  | c :: cs => (c = ' ' || c = '\t') && blankToBreak cs

/--
The text that stands between double quotes.  If `lines` says so, line breaks are allowed,
and a backslash at the end of a line goes, with the white space and line breaks behind
it.  While `skipping`, such white space is being left out.
-/
def unescape (lines skipping : Bool) : List Char → Option (List Char)
  | [] => some []
  | '\\' :: 'x' :: a :: b :: cs =>
      match codePoint? [a, b] with
      | none => none
      | some c => (unescape lines false cs).map (c :: ·)
  | '\\' :: 'u' :: a :: b :: c :: d :: cs =>
      match codePoint? [a, b, c, d] with
      | none => none
      | some c => (unescape lines false cs).map (c :: ·)
  | '\\' :: 'U' :: a :: b :: c :: d :: e :: f :: g :: h :: cs =>
      match codePoint? [a, b, c, d, e, f, g, h] with
      | none => none
      | some c => (unescape lines false cs).map (c :: ·)
  | '\\' :: c :: cs =>
      if lines && blankToBreak (c :: cs) then unescape lines true (c :: cs)
      else
        match letterEscape? c with
        | none => none
        | some c => (unescape lines false cs).map (c :: ·)
  | '\r' :: '\n' :: cs =>
      if skipping then unescape lines true cs
      else if lines then (unescape lines false cs).map ('\r' :: '\n' :: ·)
      else none
  | c :: cs =>
      if skipping && (c = ' ' || c = '\t' || c = '\n') then unescape lines true cs
      else if (lines && c = '\n') || (isPlain c && c ≠ '\\') then
        (unescape lines false cs).map (c :: ·)
      else
        none

/-- The text up to a closing double quote that no backslash escapes, and what follows the quote. -/
def splitBasic : List Char → Option (List Char × List Char)
  | [] => none
  | '"' :: cs => some ([], cs)
  | '\\' :: c :: cs =>
      (splitBasic cs).map fun (text, rest) => ('\\' :: c :: text, rest)
  | c :: cs => (splitBasic cs).map fun (text, rest) => (c :: text, rest)

/-- The text up to three closing double quotes, and what follows them. -/
def splitBasicLines : List Char → Option (List Char × List Char)
  | [] => none
  | '"' :: '"' :: '"' :: '"' :: '"' :: cs => some (['"', '"'], cs)
  | '"' :: '"' :: '"' :: '"' :: cs => some (['"'], cs)
  | '"' :: '"' :: '"' :: cs => some ([], cs)
  | '\\' :: c :: cs =>
      (splitBasicLines cs).map fun (text, rest) => ('\\' :: c :: text, rest)
  | c :: cs => (splitBasicLines cs).map fun (text, rest) => (c :: text, rest)

/-- The text up to a closing single quote, and what follows the quote. -/
def splitLiteral : List Char → Option (List Char × List Char)
  | [] => none
  | '\'' :: cs => some ([], cs)
  | c :: cs => (splitLiteral cs).map fun (text, rest) => (c :: text, rest)

/-- The text up to three closing single quotes, and what follows them. -/
def splitLiteralLines : List Char → Option (List Char × List Char)
  | [] => none
  | '\'' :: '\'' :: '\'' :: '\'' :: '\'' :: cs => some (['\'', '\''], cs)
  | '\'' :: '\'' :: '\'' :: '\'' :: cs => some (['\''], cs)
  | '\'' :: '\'' :: '\'' :: cs => some ([], cs)
  | c :: cs => (splitLiteralLines cs).map fun (text, rest) => (c :: text, rest)

/-- Whether every character may stand for itself; line breaks are allowed if `lines` says so. -/
def allPlain (lines : Bool) : List Char → Bool
  | [] => true
  | '\r' :: '\n' :: cs => lines && allPlain lines cs
  | c :: cs => ((lines && c = '\n') || isPlain c) && allPlain lines cs

/-- A text without the line break it may start with. -/
def dropFirstBreak : List Char → List Char
  | '\n' :: cs => cs
  | '\r' :: '\n' :: cs => cs
  | cs => cs

/-- A text between quotes on one line, the opening quote included, and what follows it. -/
def readLine? : List Char → Option (List Char × List Char)
  | '"' :: cs => do
      let (raw, rest) ← splitBasic cs
      let text ← unescape false false raw
      some (text, rest)
  | '\'' :: cs => do
      let (text, rest) ← splitLiteral cs
      if allPlain false text then some (text, rest) else none
  | _ => none

/-- A text between quotes of any kind, the opening quotes included, and what follows it. -/
def readQuote? : List Char → Option (List Char × List Char)
  | '"' :: '"' :: '"' :: cs => do
      let (raw, rest) ← splitBasicLines (dropFirstBreak cs)
      let text ← unescape true false raw
      some (text, rest)
  | '\'' :: '\'' :: '\'' :: cs => do
      let (text, rest) ← splitLiteralLines (dropFirstBreak cs)
      if allPlain true text then some (text, rest) else none
  | cs => readLine? cs

end Toml

end FieldQuery
