import FieldQuery.Number.Notation
import FieldQuery.Toml.Reading

/-!
# Writing TOML

Documents are written one statement on a line, with an empty line before every header
but the first.  A text is written between the plainest quotes that can hold it, and an
array of two or more texts takes a line for each.
-/

namespace FieldQuery

namespace Toml

/-- The control characters that have to be escaped; the tab and the line break are apart. -/
def isControl (c : Char) : Bool :=
  (c.toNat < 0x20 && c ≠ '\t' && c ≠ '\n') || c.toNat = 0x7F

/-- A code point as an escape of four hexadecimal digits. -/
def codeEscape (c : Char) : List Char :=
  let ds := (Nat.toDigits 16 c.toNat).map Char.toUpper
  '\\' :: 'u' :: List.replicate (4 - ds.length) '0' ++ ds

/-- How a character stands between double quotes, where it needs an escape. -/
def escapeChar (c : Char) : List Char :=
  if c = '\x08' then ['\\', 'b']
  else if c = '\t' then ['\\', 't']
  else if c = '\n' then ['\\', 'n']
  else if c = '\x0c' then ['\\', 'f']
  else if c = '\r' then ['\\', 'r']
  else if c = '"' then ['\\', '"']
  else if c = '\\' then ['\\', '\\']
  else if isControl c then codeEscape c
  else [c]

/-- A text between double quotes. -/
def writeBasic (cs : List Char) : List Char :=
  '"' :: cs.flatMap escapeChar ++ ['"']

/-- A text between single quotes. -/
def writeLiteral (cs : List Char) : List Char :=
  '\'' :: cs ++ ['\'']

/--
The lines of a text between three double quotes.  Line breaks stand for themselves, and
so does a double quote, unless it is the third in a row; `run` counts those before.
-/
def escapeLines (run : Nat) : List Char → List Char
  | [] => []
  | c :: cs =>
      if c = '\n' then '\n' :: escapeLines 0 cs
      else if c = '"' ∧ run < 2 then '"' :: escapeLines (run + 1) cs
      else escapeChar c ++ escapeLines 0 cs

/-- The line break behind opening quotes, which belongs to texts with line breaks. -/
def firstBreak (cs : List Char) : List Char :=
  if '\n' ∈ cs then ['\n'] else []

/-- A text between three double quotes. -/
def writeBasicLines (cs : List Char) : List Char :=
  '"' :: '"' :: '"' :: firstBreak cs ++ escapeLines 0 cs ++ ['"', '"', '"']

/-- A text between three single quotes. -/
def writeLiteralLines (cs : List Char) : List Char :=
  '\'' :: '\'' :: '\'' :: firstBreak cs ++ cs ++ ['\'', '\'', '\'']

/-- Whether a character occurs three times in a row. -/
def hasTriple (c : Char) : List Char → Bool
  | a :: b :: d :: cs => (a = c && b = c && d = c) || hasTriple c (b :: d :: cs)
  | _ => false

/-- Whether a text may stand between double quotes as it is, but for its tabs. -/
def fitsBasic (cs : List Char) : Bool :=
  cs.all fun c => !isControl c && c ≠ '\n' && c ≠ '\\' && c ≠ '"'

/-- Whether a text may stand between single quotes. -/
def fitsLiteral (cs : List Char) : Bool :=
  cs.all fun c => !isControl c && c ≠ '\n' && c ≠ '\''

/-- Whether a text may stand between three double quotes as it is, but for its tabs. -/
def fitsBasicLines (cs : List Char) : Bool :=
  (cs.all fun c => !isControl c && c ≠ '\\') && !hasTriple '"' cs

/-- Whether a text may stand between three single quotes. -/
def fitsLiteralLines (cs : List Char) : Bool :=
  (cs.all fun c => !isControl c) && !hasTriple '\'' cs

/-- A text between the first kind of quotes that it fits, or with escapes if it fits none. -/
def writeText (s : String) : List Char :=
  let cs := s.toList
  if fitsBasic cs then writeBasic cs
  else if fitsLiteral cs then writeLiteral cs
  else if fitsBasicLines cs then writeBasicLines cs
  else if fitsLiteralLines cs then writeLiteralLines cs
  else if '\n' ∈ cs then writeBasicLines cs
  else writeBasic cs

/-- A key: bare if it can be, else between the first quotes that it fits. -/
def writeKey (s : String) : List Char :=
  let cs := s.toList
  if !cs.isEmpty && cs.all isBare then cs
  else if fitsBasic cs then writeBasic cs
  else if fitsLiteral cs then writeLiteral cs
  else writeBasic cs

/-- An array of texts; two or more take a line each. -/
def writeTexts : List String → List Char
  | [] => ['[', ']']
  | [s] => '[' :: writeText s ++ [']']
  | ss =>
      '[' :: '\n'
        :: (ss.flatMap fun s => [' ', ' ', ' ', ' '] ++ writeText s ++ [',', '\n']) ++ [']']

/-- The line of a header. -/
def writeHeader (name : String) : List Char :=
  '[' :: writeKey name ++ [']', '\n']

/-- The lines of a key with its value. -/
def writeEntry (name : String) (value : List Char) : List Char :=
  writeKey name ++ [' ', '=', ' '] ++ value ++ ['\n']

end Toml

end FieldQuery
