/-!
# Tables keyed by name

A table holds its entries in the order of their names, by bytes, each name once.
The order is part of the type, so two tables with the same entries are equal.
Inserting replaces; keeping leaves an earlier entry of the same name alone.
-/

namespace FieldQuery

/-- Entries in strictly ascending order of their names. -/
structure NameTable (α : Type) where
  entries : List (String × α)
  sorted : entries.Pairwise fun a b => a.1 < b.1

namespace NameTable

section Entries

variable {α : Type}

/-- Puts an entry at the place of its name, in place of an earlier one. -/
def insertEntry (name : String) (value : α) : List (String × α) → List (String × α)
  | [] => [(name, value)]
  | entry :: entries =>
      if name < entry.1 then (name, value) :: entry :: entries
      else if name = entry.1 then (name, value) :: entries
      else entry :: insertEntry name value entries

/-- The value of a name. -/
def findEntry? (name : String) : List (String × α) → Option α
  | [] => none
  | entry :: entries =>
      if entry.1 = name then some entry.2
      else findEntry? name entries

theorem mem_insertEntry
    {name : String} {value : α} {entry : String × α} {entries : List (String × α)}
    (hmem : entry ∈ insertEntry name value entries) :
    entry = (name, value) ∨ entry ∈ entries := by
  induction entries with
  | nil =>
      simpa [insertEntry] using hmem
  | cons first entries ih =>
      simp only [insertEntry] at hmem
      split at hmem
      · simpa using hmem
      split at hmem
      · rcases List.mem_cons.1 hmem with h | h
        · exact Or.inl h
        · exact Or.inr (by simp [h])
      · rcases List.mem_cons.1 hmem with h | h
        · exact Or.inr (by simp [h])
        · rcases ih h with h | h
          · exact Or.inl h
          · exact Or.inr (by simp [h])

/-- Insertion keeps the entries in order. -/
theorem sorted_insertEntry
    (name : String) (value : α) {entries : List (String × α)}
    (hsorted : entries.Pairwise fun a b => a.1 < b.1) :
    (insertEntry name value entries).Pairwise fun a b => a.1 < b.1 := by
  induction entries with
  | nil =>
      simp [insertEntry]
  | cons first entries ih =>
      obtain ⟨hfirst, hrest⟩ := List.pairwise_cons.1 hsorted
      simp only [insertEntry]
      split
      · rename_i hlt
        refine List.pairwise_cons.2 ⟨fun entry hmem => ?_, hsorted⟩
        rcases List.mem_cons.1 hmem with rfl | hmem
        · exact hlt
        · exact String.lt_trans hlt (hfirst entry hmem)
      split
      · rename_i heq
        refine List.pairwise_cons.2 ⟨fun entry hmem => ?_, hrest⟩
        rw [heq]
        exact hfirst entry hmem
      · rename_i hlt hne
        refine List.pairwise_cons.2 ⟨fun entry hmem => ?_, ih hrest⟩
        rcases mem_insertEntry hmem with rfl | hmem
        · exact Std.lt_of_le_of_ne (String.not_lt.1 hlt) (Ne.symm hne)
        · exact hfirst entry hmem

end Entries

variable {α : Type}

/-- The table without entries. -/
def empty : NameTable α :=
  ⟨[], List.Pairwise.nil⟩

/-- The value of a name. -/
def find? (t : NameTable α) (name : String) : Option α :=
  findEntry? name t.entries

/-- Adds an entry, in place of an earlier one of the same name. -/
def insert (t : NameTable α) (name : String) (value : α) : NameTable α :=
  ⟨insertEntry name value t.entries, sorted_insertEntry name value t.sorted⟩

/-- Adds an entry unless there is one of the same name already. -/
def keep (t : NameTable α) (name : String) (value : α) : NameTable α :=
  match t.find? name with
  | some _ => t
  | none => t.insert name value

/-- The table of a list of entries, a later one replacing an earlier one of the same name. -/
def ofList (entries : List (String × α)) : NameTable α :=
  entries.foldl (fun t entry => t.insert entry.1 entry.2) empty

/-- The names in order. -/
def names (t : NameTable α) : List String :=
  t.entries.map Prod.fst

/-- The number of entries. -/
def size (t : NameTable α) : Nat :=
  t.entries.length

/-- Whether there is no entry. -/
def isEmpty (t : NameTable α) : Bool :=
  t.entries.isEmpty

end NameTable

end FieldQuery
