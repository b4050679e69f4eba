import FieldQuery.Toml.Basic

/-!
# Assembling tables

**Input**: the statements of a document.

**Output**: the document's table, unless a statement adds to something that is
already complete.

**Algorithm**: every statement changes the table at the end of a path.  A path makes
the tables it lacks.  A header may lead through any table but one between braces; a
dotted key only through tables that no header has named.  In an array of tables both
lead to the last one.
-/

namespace FieldQuery

namespace Toml

/-- A change of a table, given how it came about and its entries; none if it is not allowed. -/
abbrev Change :=
  TableOrigin → Entries → Option Entries

/-- Gives a name a value in place of its earlier one. -/
def replaceEntry (name : String) (value : Toml) (entries : Entries) : Entries :=
  entries.map fun entry => if entry.1 = name then (name, value) else entry

/-- Whether a path that makes tables of one kind may lead through a table of another. -/
def mayEnter : TableOrigin → TableOrigin → Bool
  | _, .inline => false
  | .dotted, .header => false
  | _, _ => true

/-- A change at the end of a path; tables that are missing on the way are made. -/
def changeAt (made : TableOrigin) (change : Change) : List String → Change
  | [], origin, entries => change origin entries
  | name :: path, _, entries =>
      match entries.lookup name with
      | none =>
          (changeAt made change path made []).map fun child =>
            entries ++ [(name, .table made child)]
      | some (.table origin child) =>
          if mayEnter made origin then
            (changeAt made change path origin child).map fun child =>
              replaceEntry name (.table origin child) entries
          else
            none
      | some (.tables elements) =>
          match elements.getLast? with
          | none => none
          | some child =>
              (changeAt made change path .header child).map fun child =>
                replaceEntry name (.tables (elements.dropLast ++ [child])) entries
      | some _ => none

/-- Defines a key; only a table made by dotted keys may be reached through one. -/
def define (path : KeyPath) (value : Toml) : Change :=
  changeAt .dotted
    (fun origin entries =>
      if path.parents ≠ [] ∧ origin ≠ .dotted then none
      else if (entries.lookup path.name).isSome then none
      else some (entries ++ [(path.name, value)]))
    path.parents

/-- Names a table by a header, once. -/
def openTable (path : KeyPath) : Change :=
  changeAt .passed
    (fun _ entries =>
      match entries.lookup path.name with
      | none => some (entries ++ [(path.name, .table .header [])])
      | some (.table .passed child) =>
          some (replaceEntry path.name (.table .header child) entries)
      | some _ => none)
    path.parents

/-- Adds an empty table to an array of tables. -/
def addElement (path : KeyPath) : Change :=
  changeAt .passed
    (fun _ entries =>
      match entries.lookup path.name with
      | none => some (entries ++ [(path.name, .tables [[]])])
      | some (.tables elements) =>
          some (replaceEntry path.name (.tables (elements ++ [[]])) entries)
      | some _ => none)
    path.parents

/-- A document so far: its entries, and the path of the table that keys belong to. -/
structure Draft where
  current : List String
  entries : Entries

/-- Carries out a statement. -/
def Draft.add? (draft : Draft) : Statement → Option Draft
  | .table path => (openTable path .header draft.entries).map (⟨path.names, ·⟩)
  | .element path => (addElement path .header draft.entries).map (⟨path.names, ·⟩)
  | .entry path value =>
      (changeAt .passed (define path value) draft.current .header draft.entries).map
        (⟨draft.current, ·⟩)

/-- The table that the statements of a document describe. -/
def ofStatements? (statements : List Statement) : Option Entries :=
  (statements.foldlM Draft.add? ⟨[], []⟩).map Draft.entries

/-- The table that the keys between braces describe. -/
def ofMembers? (members : List (KeyPath × Toml)) : Option Toml :=
  (members.foldlM (fun entries member => define member.1 member.2 .header entries) []).map
    (table .inline)

end Toml

end FieldQuery
