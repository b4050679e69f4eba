import FieldQuery.NameTable

/-!
# Field resolution

A query names fields as people know them.  A record may keep one such field under
several paths, for instance as copies inside linked records.  A resolver gives
the paths of a name, or none for a name it does not know.
-/

namespace FieldQuery

/-- The paths of one field: at least one, each once, the first being the primary. -/
structure Aliases where
  paths : List String
  nonempty : paths ≠ []
  distinct : paths.Nodup
deriving DecidableEq

/-- Adds a path behind the others unless it is there already. -/
def addPath (paths : List String) (path : String) : List String :=
  if path ∈ paths then paths else paths ++ [path]

theorem nodup_addPath
    {paths : List String} (path : String) (hpaths : paths.Nodup) :
    (addPath paths path).Nodup := by
  unfold addPath
  split
  · exact hpaths
  · rename_i hnew
    refine List.nodup_append.2 ⟨hpaths, by simp, ?_⟩
    intro a ha b hb heq
    simp at hb
    subst hb heq
    exact hnew ha

theorem nodup_foldl_addPath
    {paths : List String} (more : List String) (hpaths : paths.Nodup) :
    (more.foldl addPath paths).Nodup := by
  induction more generalizing paths with
  | nil => exact hpaths
  | cons path more ih => exact ih (nodup_addPath path hpaths)

theorem foldl_addPath_ne_nil
    {paths : List String} (more : List String) (hpaths : paths ≠ []) :
    more.foldl addPath paths ≠ [] := by
  induction more generalizing paths with
  | nil => exact hpaths
  | cons path more ih =>
      refine ih ?_
      unfold addPath
      split
      · exact hpaths
      · simp

/-- Adding paths that may repeat leaves each at its first place. -/
theorem foldl_addPath
    (more paths : List String) :
    more.foldl addPath paths = paths ++ (more.removeAll paths).eraseDups := by
  induction more generalizing paths with
  | nil =>
      simp [List.removeAll]
  | cons path more ih =>
      rw [List.foldl_cons, ih, addPath]
      by_cases hmem : path ∈ paths
      · have hold : (path :: more).removeAll paths = more.removeAll paths := by
          simp [List.removeAll, hmem]
        rw [if_pos hmem, hold]
      · have hnew : (path :: more).removeAll paths = path :: more.removeAll paths := by
          simp [List.removeAll, hmem]
        have hrest :
            more.removeAll (paths ++ [path]) =
              (more.removeAll paths).filter fun other => !other == path := by
          rw [List.removeAll, List.removeAll, List.filter_filter]
          refine List.filter_congr fun other _ => ?_
          by_cases hother : other = path <;> simp [hother]
        rw [if_neg hmem, hnew, List.eraseDups_cons, hrest, List.append_assoc,
          List.singleton_append]

namespace Aliases

/-- A field kept under one path. -/
def single (path : String) : Aliases :=
  ⟨[path], by simp, by simp⟩

/-- A primary path with others, repetitions left out. -/
def ofPrimary (primary : String) (others : List String) : Aliases where
  paths := others.foldl addPath [primary]
  nonempty := foldl_addPath_ne_nil others (by simp)
  distinct := nodup_foldl_addPath others (by simp)

/-- Paths in order, repetitions left out, if there are any. -/
def ofPaths? : List String → Option Aliases
  | [] => none
  | primary :: others => some (ofPrimary primary others)

/-- The first path. -/
def primary (a : Aliases) : String :=
  a.paths.head a.nonempty

/-- The number of paths. -/
def count (a : Aliases) : Nat :=
  a.paths.length

/-- The aliases of a field are its paths, each at its first place. -/
theorem paths_ofPrimary
    (primary : String) (others : List String) :
    (ofPrimary primary others).paths = (primary :: others).eraseDups :=
  calc
    (ofPrimary primary others).paths = (primary :: others).foldl addPath [] := rfl
    _ = ((primary :: others).removeAll []).eraseDups := foldl_addPath (primary :: others) []
    _ = (primary :: others).eraseDups := by rw [List.removeAll_nil]

theorem paths_ofPaths?
    {paths : List String} {aliases : Aliases} (haliases : ofPaths? paths = some aliases) :
    aliases.paths = paths.eraseDups := by
  cases paths with
  | nil =>
      cases haliases
  | cons primary others =>
      obtain rfl := Option.some.inj haliases
      exact paths_ofPrimary primary others

theorem exists_ofPaths?
    {paths : List String} (hpaths : paths ≠ []) :
    ∃ aliases, ofPaths? paths = some aliases := by
  cases paths with
  | nil =>
      exact absurd rfl hpaths
  | cons primary others =>
      exact ⟨_, rfl⟩

end Aliases

/-- What gives the paths of a field name, or nothing for a name that is not known. -/
abbrev Resolver :=
  String → Option Aliases

/-- Every name stands for itself. -/
def Resolver.self : Resolver :=
  fun name => some (.single name)

/-- The entries of a table under names; a name without an entry is not known. -/
def Resolver.ofEntries (entries : NameTable Aliases) : Resolver :=
  entries.find?

/-- The paths of known names, and whether other names stand for themselves. -/
structure AliasTable where
  entries : NameTable Aliases := .empty
  fallback : Bool := false

namespace AliasTable

/-- Adds the paths of a name, in place of earlier ones. -/
def insert (t : AliasTable) (name : String) (aliases : Aliases) : AliasTable where
  entries := t.entries.insert name aliases
  fallback := t.fallback

/-- Adds the paths of a name, and gives the earlier ones that they replace. -/
def exchange (t : AliasTable) (name : String) (aliases : Aliases) :
    Option Aliases × AliasTable :=
  (t.entries.find? name, t.insert name aliases)

/-- The same table, where other names stand for themselves. -/
def withFallback (t : AliasTable) : AliasTable where
  entries := t.entries
  fallback := true

/-- The table of a list of entries, a later one replacing an earlier one of the same name. -/
def ofList (entries : List (String × Aliases)) : AliasTable where
  entries := .ofList entries

/-- The paths that a table gives to a name. -/
def resolver (t : AliasTable) : Resolver :=
  fun name =>
    match t.entries.find? name with
    | some aliases => some aliases
    | none => if t.fallback then some (.single name) else none

end AliasTable

end FieldQuery
