import FieldQuery.Number.Notation

/-!
# JSON texts

Values for interchange and their two texts.  The compact text has no white
space.  The spread text puts every member on a line of its own, indented by two
spaces for each level.  Numbers that are not finite are written as null.
-/

namespace FieldQuery

/-- A value for interchange; the members of an object keep their order. -/
inductive Json where
  | null
  | bool (b : Bool)
  | integer (n : Int)
  | float (x : Binary64)
  | string (s : String)
  | array (items : List Json)
  | object (members : List (String × Json))
deriving Inhabited

namespace Json

/-- A hexadecimal escape of a control character. -/
def unicodeEscape (c : Char) : List Char :=
  let ds := Nat.toDigits 16 c.toNat
  '\\' :: 'u' :: List.replicate (4 - ds.length) '0' ++ ds

/-- How one character stands inside a string. -/
def escapeChar (c : Char) : List Char :=
  if c = '"' then ['\\', '"']
  else if c = '\\' then ['\\', '\\']
  else if c = '\x08' then ['\\', 'b']
  else if c = '\t' then ['\\', 't']
  else if c = '\n' then ['\\', 'n']
  else if c = '\x0c' then ['\\', 'f']
  else if c = '\r' then ['\\', 'r']
  else if c.toNat < 0x20 then unicodeEscape c
  else [c]

/-- A string between quotes. -/
def writeString (s : String) : List Char :=
  '"' :: s.toList.flatMap escapeChar ++ ['"']

/-- A number, or null for one that is not finite. -/
def writeFloat (x : Binary64) : List Char :=
  if x.isFinite then (x.write Layout.interchange).toList
  else "null".toList

/-- The text of a value without parts. -/
def writeScalar : Json → List Char
  | bool true => "true".toList
  | bool false => "false".toList
  | integer n => intText n
  | float x => writeFloat x
  | string s => writeString s
  | _ => "null".toList

mutual

/-- The compact text of a value. -/
def writeCompact : Json → List Char
  | array items => '[' :: writeItems items ++ [']']
  | object members => '\x7b' :: writeMembers members ++ ['\x7d']
  | scalar => writeScalar scalar

/-- The items of an array, separated by commas. -/
def writeItems : List Json → List Char
  | [] => []
  | [item] => writeCompact item
  | item :: items => writeCompact item ++ ',' :: writeItems items

/-- The members of an object, separated by commas. -/
def writeMembers : List (String × Json) → List Char
  | [] => []
  | [(name, value)] => writeString name ++ ':' :: writeCompact value
  | (name, value) :: members =>
      writeString name ++ ':' :: writeCompact value ++ ',' :: writeMembers members

end

/-- The text without white space. -/
def compact (j : Json) : String :=
  String.ofList j.writeCompact

/-- The start of a line below `level` others. -/
def newLine (level : Nat) : List Char :=
  '\n' :: List.replicate (2 * level) ' '

mutual

/-- The spread text of a value below `level` others. -/
def writeSpread (level : Nat) : Json → List Char
  | array [] => ['[', ']']
  | array (item :: items) =>
      '[' :: newLine (level + 1) ++ writeSpread (level + 1) item
        ++ spreadItems (level + 1) items ++ newLine level ++ [']']
  | object [] => ['\x7b', '\x7d']
  | object ((name, value) :: members) =>
      '\x7b' :: newLine (level + 1) ++ writeString name ++ ':' :: ' '
        :: writeSpread (level + 1) value
        ++ spreadMembers (level + 1) members ++ newLine level ++ ['\x7d']
  | scalar => writeScalar scalar

/-- The items after the first, each on a line of its own. -/
def spreadItems (level : Nat) : List Json → List Char
  | [] => []
  | item :: items =>
      ',' :: newLine level ++ writeSpread level item ++ spreadItems level items

/-- The members after the first, each on a line of its own. -/
def spreadMembers (level : Nat) : List (String × Json) → List Char
  | [] => []
  | (name, value) :: members =>
      ',' :: newLine level ++ writeString name ++ ':' :: ' ' :: writeSpread level value
        ++ spreadMembers level members

end

/-- The text with one member or item on a line. -/
def spread (j : Json) : String :=
  String.ofList (j.writeSpread 0)

end Json

end FieldQuery
