import FieldQuery.Toml.Moment

/-!
# TOML values

A document is a table, and its lines are statements about that table.  Besides its
entries a table remembers how it came about, because that decides what later lines
may still add to it.
-/

namespace FieldQuery

/-- How a table came about. -/
inductive TableOrigin where
  /-- A header names it; the document itself counts as named. -/
  | header
  /-- It lies on the way to a table that a header names. -/
  | passed
  /-- It lies on the way of a dotted key. -/
  | dotted
  /-- It stands between braces. -/
  | inline
deriving DecidableEq, Repr

/-- A TOML value. -/
inductive Toml where
  | string (s : String)
  | integer (n : Int)
  | float (x : Binary64)
  /-- What has the shape of a number but no value: too large, or not all digits. -/
  | unreadable
  | boolean (b : Bool)
  | moment (m : Toml.Moment)
  /-- An array between brackets. -/
  | array (items : List Toml)
  /-- An array whose elements are tables with headers of their own. -/
  | tables (elements : List (List (String × Toml)))
  | table (origin : TableOrigin) (entries : List (String × Toml))

namespace Toml

/-- The entries of a table, in the order in which they appeared. -/
abbrev Entries :=
  List (String × Toml)

/-- A dotted key: the names of the tables on the way, and the name of the entry. -/
structure KeyPath where
  parents : List String
  name : String
deriving DecidableEq, Repr

/-- All names of a dotted key. -/
def KeyPath.names (path : KeyPath) : List String :=
  path.parents ++ [path.name]

/-- A statement of a document. -/
inductive Statement where
  /-- A header; what follows belongs to the table it names. -/
  | table (path : KeyPath)
  /-- A header that adds a table to an array. -/
  | element (path : KeyPath)
  /-- A key with its value. -/
  | entry (path : KeyPath) (value : Toml)

/-- The items of an array of either kind. -/
def items? : Toml → Option (List Toml)
  | array items => some items
  | tables elements => some (elements.map (table .header))
  | _ => none

/-- The name under which a moment holds its text. -/
def momentName : String :=
  "$__toml_private_datetime"

/-- The entries of a table.  A moment is a table too, with its text as the only entry. -/
def entries? : Toml → Option Entries
  | table _ entries => some entries
  | moment m => some [(momentName, string (String.ofList m.write))]
  | _ => none

mutual

/-- Whether every number in a value can be read. -/
def isReadable : Toml → Bool
  | unreadable => false
  | array items => areReadable items
  | tables elements => elementsReadable elements
  | table _ entries => entriesReadable entries
  | _ => true

/-- Whether every number in several values can be read. -/
def areReadable : List Toml → Bool
  | [] => true
  | t :: ts => isReadable t && areReadable ts

/-- Whether every number in the entries of a table can be read. -/
def entriesReadable : List (String × Toml) → Bool
  | [] => true
  | (_, t) :: entries => isReadable t && entriesReadable entries

/-- Whether every number in several tables can be read. -/
def elementsReadable : List (List (String × Toml)) → Bool
  | [] => true
  | entries :: elements => entriesReadable entries && elementsReadable elements

end

/-- Whether a value is a table or an array without contents. -/
def isVoid : Toml → Bool
  | array items => items.isEmpty
  | table _ entries => entries.isEmpty
  | _ => false

end Toml

end FieldQuery
