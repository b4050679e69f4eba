import FieldQuery.Toml.Assembly
import FieldQuery.Toml.Quote

/-!
# Reading TOML

**Input**: a text.

**Output**: the table it describes, or nothing if it is no TOML document.

**Algorithm**: a reader takes a value from the front of a text and gives what follows
it.  Every loop goes on only with a shorter text, and brackets are nested at most
eighty deep, so reading ends.  Inside brackets of any kind line breaks and comments may
stand wherever a space may, but not within a dotted key.
-/

namespace FieldQuery

namespace Toml

/-- Takes a value from the front of a text, and gives the text behind it. -/
abbrev Reader (α : Type) :=
  List Char → Option (α × List Char)

/-- Spaces and tabs. -/
def isSpace (c : Char) : Bool :=
  c = ' ' || c = '\t'

/-- A text from its first character that is no space or tab. -/
def skipSpace (cs : List Char) : List Char :=
  cs.dropWhile isSpace

/--
A text behind any spaces, line breaks and comments; none if a comment holds a control
character.  While `inComment`, a comment is being left out.
-/
def skipBreaks (inComment : Bool) : List Char → Option (List Char)
  | [] => some []
  | '\n' :: cs => skipBreaks false cs
  | '\r' :: '\n' :: cs => skipBreaks false cs
  | c :: cs =>
      if inComment then
        if isPlain c then skipBreaks true cs else none
      else if isSpace c then skipBreaks false cs
      else if c = '#' then skipBreaks true cs
      else some (c :: cs)

/-- The characters of a key without quotes. -/
def isBare (c : Char) : Bool :=
  c.isAlphanum || c = '_' || c = '-'

/-- A key: a text between quotes on one line, or a word. -/
def readKey : Reader String
  | [] => none
  | c :: cs =>
      if c = '"' ∨ c = '\'' then
        (readLine? (c :: cs)).map fun (text, rest) => (String.ofList text, rest)
      else if isBare c then
        some (String.ofList (c :: cs.takeWhile isBare), cs.dropWhile isBare)
      else
        none

/-- Names with points between them, and what follows them and any space. -/
def readNames (cs : List Char) : Option (KeyPath × List Char) :=
  match readKey cs with
  | none => none
  | some (name, rest) =>
      match skipSpace rest with
      | '.' :: rest =>
          if _h : (skipSpace rest).length < cs.length then
            (readNames (skipSpace rest)).map fun (path, rest) =>
              (⟨name :: path.parents, path.name⟩, rest)
          else
            none
      | rest => some (⟨[], name⟩, rest)
termination_by cs.length

/-- The greatest depth of brackets, and of the tables that one key leads through. -/
def maxNesting : Nat :=
  80

/-- A dotted key, and what follows it and any space. -/
def readKeyPath (cs : List Char) : Option (KeyPath × List Char) :=
  (readNames cs).filter fun (path, _) => path.parents.length < maxNesting

/-- The characters of a value without quotes: any that neither divide values nor end a line. -/
def isWordChar (c : Char) : Bool :=
  !(isSpace c || ['\n', '\r', ',', '=', '[', ']', '\x7b', '\x7d', '#'].contains c)

/-- A word; a date and a time of day with a space between them are one word. -/
def splitWord (cs : List Char) : List Char × List Char :=
  let word := cs.takeWhile isWordChar
  match readDate? word, cs.dropWhile isWordChar with
  | some (_, []), ' ' :: c :: rest =>
      if c.isDigit then
        (word ++ ' ' :: c :: rest.takeWhile isWordChar, rest.dropWhile isWordChar)
      else
        (word, ' ' :: c :: rest)
  | _, rest => (word, rest)

/-- Items with commas between them and perhaps behind the last, up to a closing bracket. -/
def readItems {α : Type} (close : Char) (item : Reader α) (cs : List Char) :
    Option (List α × List Char) :=
  match skipBreaks false cs with
  | none | some [] => none
  | some (c :: rest) =>
      if c = close then some ([], rest)
      else
        match item (c :: rest) with
        | none => none
        | some (x, rest) =>
            match skipBreaks false rest with
            | none | some [] => none
            | some (d :: rest) =>
                if d = close then some ([x], rest)
                else if d = ',' then
                  if _h : rest.length < cs.length then
                    (readItems close item rest).map fun (xs, rest) => (x :: xs, rest)
                  else
                    none
                else
                  none
termination_by cs.length

/-- A key with its value; `gap` leaves out what may stand around the sign between them. -/
def readMember (gap : List Char → Option (List Char)) (value : Reader Toml) :
    Reader (KeyPath × Toml) :=
  fun cs => do
    let (path, rest) ← readKeyPath cs
    let rest ← behind? '=' (← gap rest)
    let (v, rest) ← value (← gap rest)
    some ((path, v), rest)

/-- A value without brackets. -/
def readScalar : Reader Toml
  | [] => none
  | c :: cs =>
      if c = '"' ∨ c = '\'' then
        (readQuote? (c :: cs)).map fun (text, rest) => (.string (String.ofList text), rest)
      else
        let (word, rest) := splitWord (c :: cs)
        (wordValue? word).map (·, rest)

/-- A value with brackets at most `room` deep. -/
def readValue : Nat → Reader Toml
  | 0, cs =>
      match cs with
      | '[' :: _ => none
      | '\x7b' :: _ => none
      | cs => readScalar cs
  | room + 1, cs =>
      match cs with
      | '[' :: cs =>
          (readItems ']' (readValue room) cs).map fun (items, rest) => (.array items, rest)
      | '\x7b' :: cs => do
          let member := readMember (skipBreaks false) (readValue room)
          let (members, rest) ← readItems '\x7d' member cs
          let value ← ofMembers? members
          some (value, rest)
      | cs => readScalar cs

/-- A header or a key with its value. -/
def readStatement : Reader Statement
  | '[' :: '[' :: cs =>
      match readKeyPath (skipSpace cs) with
      | some (path, ']' :: ']' :: rest) => some (.element path, rest)
      | _ => none
  | '[' :: cs =>
      match readKeyPath (skipSpace cs) with
      | some (path, ']' :: rest) => some (.table path, rest)
      | _ => none
  | cs =>
      (readMember (some ∘ skipSpace) (readValue maxNesting) cs).map fun ((path, value), rest) =>
        (.entry path value, rest)

/-- Whether nothing but space and a comment stands before the end of the line. -/
def endsLine (cs : List Char) : Bool :=
  match skipSpace cs with
  | [] => true
  | '\n' :: _ => true
  | '\r' :: '\n' :: _ => true
  | c :: _ => c = '#'

/-- The statements of a document, each on lines of its own. -/
def readStatements (cs : List Char) : Option (List Statement) :=
  match skipBreaks false cs with
  | none => none
  | some [] => some []
  | some (c :: rest) =>
      match readStatement (c :: rest) with
      | none => none
      | some (statement, rest) =>
          if _h : endsLine rest ∧ rest.length < cs.length then
            (readStatements rest).map (statement :: ·)
          else
            none
termination_by cs.length

/-- A text without the byte order mark it may start with. -/
def dropMark : List Char → List Char
  | '\ufeff' :: cs => cs
  | cs => cs

/-- The entries of the document that a text is, if it is one. -/
def read? (s : String) : Option Entries :=
  match readStatements (dropMark s.toList) with
  | none => none
  | some statements => ofStatements? statements

end Toml

end FieldQuery
