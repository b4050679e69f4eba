import Mathlib
import FieldQuery.Proofs.ClosestLayers
import FieldQuery.Proofs.LoadFaults

/-!
# What a loaded configuration holds

The layers of a loaded configuration have been checked one by one, and what is merged
from them is as good as they are: limits that allow something, and fields with paths.
The table of aliases has an entry for every field, so a name without one is not known,
unless no file has any field at all.

**Results.**

* `mem_fieldEntries_of_fieldsOf`: a merged field comes from a layer as it is;
* `entries_aliasTable`: the table of aliases has the merged fields and no others;
* `loaded_usable_and_strict`: limits, fields and aliases of a loaded configuration.
-/

namespace FieldQuery

section Merging

namespace Config

variable {layers : List Layer} {name : String}

/-- A merged field comes from a layer as it is. -/
theorem mem_fieldEntries_of_fieldsOf
    {entry : String × List String} (hmem : entry ∈ (fieldsOf layers).entries) :
    ∃ layer ∈ layers, entry ∈ layer.fieldEntries := by
  have hfind := NameTable.find?_eq_some_iff.2 hmem
  rw [find?_fieldsOf] at hfind
  obtain ⟨layer, hlayer, hentry⟩ := List.exists_of_findSome?_eq_some hfind
  exact ⟨layer, hlayer, NameTable.mem_of_findEntry?_eq_some hentry⟩

/-- No field is merged exactly where no layer has one. -/
theorem entries_fieldsOf_eq_nil_iff :
    (fieldsOf layers).entries = [] ↔ ∀ layer ∈ layers, layer.fieldEntries = [] := by
  simp only [List.eq_nil_iff_forall_not_mem]
  constructor
  · intro hnone layer hlayer entry hentry
    have hfind : (fieldsOf layers).find? entry.1 = none :=
      NameTable.find?_eq_none_iff.2 fun value => hnone _
    rw [find?_fieldsOf, List.findSome?_eq_none_iff] at hfind
    have hfound := NameTable.findEntry?_of_mem layer.sorted_fieldEntries hentry
    rw [hfind layer hlayer] at hfound
    cases hfound
  · intro hnone entry hmem
    obtain ⟨layer, hlayer, hentry⟩ := mem_fieldEntries_of_fieldsOf hmem
    exact hnone layer hlayer entry hentry

/-- No field is merged exactly where no file has one. -/
theorem entries_fieldsOf_eq_nil_iff_sets
    {files : Files} {layers : List (String × Layer)}
    (hsets : ∀ entry ∈ layers, files.Sets entry.1 entry.2) :
    (fieldsOf (layers.map Prod.snd)).entries = [] ↔
      ∀ path ∈ layers.map Prod.fst, ∀ layer, files.Sets path layer →
        layer.fieldEntries = [] := by
  rw [entries_fieldsOf_eq_nil_iff]
  constructor
  · intro hnone path hpath layer hlayer
    obtain ⟨entry, hentry, rfl⟩ := List.mem_map.1 hpath
    rw [hlayer.unique (hsets entry hentry)]
    exact hnone _ (List.mem_map_of_mem hentry)
  · intro hnone layer hlayer
    obtain ⟨entry, hentry, rfl⟩ := List.mem_map.1 hlayer
    exact hnone _ (List.mem_map_of_mem hentry) _ (hsets entry hentry)

/-- A limit is not zero if no layer sets it to zero. -/
theorem one_le_of_ne_some_zero
    {limit : Option Nat} (hlimit : limit ≠ some 0) (n : Nat) (hn : limit = some n) :
    1 ≤ n := by
  have hne : n ≠ 0 := fun hzero => hlimit (hzero ▸ hn)
  exact Nat.one_le_iff_ne_zero.2 hne

end Config

end Merging

section AliasTables

namespace Config

/-- The entry of a field in a table of aliases, if the field has a path. -/
def aliasesOf? (entry : String × List String) : Option (String × Aliases) :=
  (Aliases.ofPaths? entry.2).map fun aliases => (entry.1, aliases)

theorem map_filterMap_aliasesOf?
    {entries : List (String × List String)} (hentries : ∀ entry ∈ entries, entry.2 ≠ []) :
    (entries.filterMap aliasesOf?).map (fun entry => (entry.1, entry.2.paths)) =
      entries.map fun entry => (entry.1, entry.2.eraseDups) := by
  induction entries with
  | nil =>
      rfl
  | cons entry entries ih =>
      obtain ⟨aliases, haliases⟩ := Aliases.exists_ofPaths? (hentries entry (by simp))
      have hentry : aliasesOf? entry = some (entry.1, aliases) := by
        simp [aliasesOf?, haliases]
      rw [List.filterMap_cons_some hentry, List.map_cons, List.map_cons,
        ih fun entry hmem => hentries entry (List.mem_cons_of_mem _ hmem),
        Aliases.paths_ofPaths? haliases]

theorem sorted_filterMap_aliasesOf?
    {entries : List (String × List String)}
    (hsorted : entries.Pairwise fun a b => a.1 < b.1) :
    (entries.filterMap aliasesOf?).Pairwise fun a b => a.1 < b.1 := by
  refine hsorted.filterMap aliasesOf? fun a b hlt a' ha' b' hb' => ?_
  obtain ⟨_, _, rfl⟩ := Option.map_eq_some_iff.1 ha'
  obtain ⟨_, _, rfl⟩ := Option.map_eq_some_iff.1 hb'
  exact hlt

variable {c : Config}

theorem entries_aliasTable
    (c : Config) :
    c.aliasTable.entries.entries = c.fields.entries.filterMap aliasesOf? := by
  have hentries := NameTable.entries_ofList (sorted_filterMap_aliasesOf? c.fields.sorted)
  unfold aliasTable
  dsimp only
  split <;> exact hentries

/-- Names without an entry stand for themselves where there is no entry. -/
theorem fallback_aliasTable
    (c : Config) :
    c.aliasTable.fallback = c.aliasTable.entries.entries.isEmpty := by
  unfold aliasTable
  dsimp only
  split
  · rename_i hempty
    exact hempty.symm
  · rename_i hentry
    exact (Bool.not_eq_true _ ▸ hentry).symm

/-- Fields that all have paths are all in the table of aliases, and nothing else is. -/
theorem map_entries_aliasTable
    (hfields : ∀ entry ∈ c.fields.entries, entry.2 ≠ []) :
    c.aliasTable.entries.entries.map (fun entry => (entry.1, entry.2.paths)) =
      c.fields.entries.map fun entry => (entry.1, entry.2.eraseDups) := by
  rw [entries_aliasTable]
  exact map_filterMap_aliasesOf? hfields

/-- A field is resolved to its paths, each at its first place. -/
theorem find?_aliasTable
    (hfields : ∀ entry ∈ c.fields.entries, entry.2 ≠ []) (name : String) :
    (c.aliasTable.entries.find? name).map Aliases.paths =
      (c.fields.find? name).map List.eraseDups := by
  have hfind := congrArg ( NameTable.findEntry? name) (map_entries_aliasTable hfields)
  rw [NameTable.findEntry?_map, NameTable.findEntry?_map] at hfind
  exact hfind

theorem isEmpty_entries_aliasTable
    (hfields : ∀ entry ∈ c.fields.entries, entry.2 ≠ []) :
    c.aliasTable.entries.entries.isEmpty = c.fields.entries.isEmpty := by
  have hmap := congrArg List.isEmpty (map_entries_aliasTable hfields)
  rw [List.isEmpty_map, List.isEmpty_map] at hmap
  exact hmap

/-- Another name stands for itself if there is no field, and is not known if there is one. -/
theorem resolver_of_find?_eq_none
    (hfields : ∀ entry ∈ c.fields.entries, entry.2 ≠ [])
    {name : String} (hname : c.fields.find? name = none) :
    c.aliasTable.resolver name =
      if c.fields.entries = [] then some (.single name) else none := by
  have hnone : c.aliasTable.entries.find? name = none := by
    have hfind := find?_aliasTable hfields name
    rw [hname, Option.map_none, Option.map_eq_none_iff] at hfind
    exact hfind
  unfold AliasTable.resolver
  simp only [hnone, fallback_aliasTable, isEmpty_entries_aliasTable hfields, List.isEmpty_iff]

end Config

end AliasTables

/--
**A loaded configuration is usable and strict.**  Both limits are at least one, and
every field has paths, none of them blank.  The table of aliases has an entry for every
field, with the paths of that field in order and each at its first place, and no other
entry.  A name that is no field stands for itself if no file has any field, and is not
known if one has.
-/
theorem loaded_usable_and_strict
    {files : Files} {paths : List String} {c : Config}
    (hload : Config.load files paths = .ok c) :
    (1 ≤ c.limits.maxDepth ∧ 1 ≤ c.limits.maxTokens)
      ∧
    (∀ entry ∈ c.fields.entries, HasPaths entry.2)
      ∧
    (c.aliasTable.entries.entries.map fun entry => (entry.1, entry.2.paths)) =
      (c.fields.entries.map fun entry => (entry.1, entry.2.eraseDups))
      ∧
    (∀ name, c.fields.find? name = none →
      ((∃ aliases, c.aliasTable.resolver name = some aliases) ↔
        ∀ path ∈ paths, ∀ layer, files.Sets path layer → layer.fieldEntries = []) ∧
      ∀ aliases, c.aliasTable.resolver name = some aliases → aliases = .single name) := by
  obtain ⟨layers, rfl, husable, rfl⟩ := Config.load_eq_ok_iff.1 hload
  have hlayers : ∀ layer ∈ layers.map Prod.snd, layer.IsUsable := by
    intro layer hmem
    obtain ⟨entry, hentry, rfl⟩ := List.mem_map.1 hmem
    exact (husable entry hentry).2
  have hpaths :
      ∀ entry ∈ (Config.ofLayers layers).fields.entries, HasPaths entry.2 := by
    intro entry hmem
    obtain ⟨layer, hlayer, hentry⟩ := Config.mem_fieldEntries_of_fieldsOf hmem
    exact (hlayers layer hlayer).fields entry hentry
  have hfields : ∀ entry ∈ (Config.ofLayers layers).fields.entries, entry.2 ≠ [] :=
    fun entry hmem => (hpaths entry hmem).1
  refine ⟨⟨?_, ?_⟩, hpaths, Config.map_entries_aliasTable hfields, fun name hname => ?_⟩
  · exact Config.of_value?_ofLayers .maxDepth (p := fun n : Nat => 1 ≤ n)
      (fun entry hmem => Config.one_le_of_ne_some_zero (husable entry hmem).2.depth)
      (by rintro _ ⟨⟩; decide) rfl
  · exact Config.of_value?_ofLayers .maxTokens (p := fun n : Nat => 1 ≤ n)
      (fun entry hmem => Config.one_le_of_ne_some_zero (husable entry hmem).2.tokens)
      (by rintro _ ⟨⟩; decide) rfl
  · have hempty : (Config.ofLayers layers).fields.entries = [] ↔ _ :=
      Config.entries_fieldsOf_eq_nil_iff_sets fun entry hmem => (husable entry hmem).1
    rw [Config.resolver_of_find?_eq_none hfields hname, ← hempty]
    split
    · rename_i hnil
      simp [hnil]
    · rename_i hsome
      simp [hsome]

/-- A field that repeats a path has two aliases, and no other name is known beside it. -/
theorem loaded_usable_and_strict_repeated_path :
    ∃ (files : Files) (c : Config),
      Config.load files ["/a/.sift.toml"] = .ok c ∧
      (c.aliasTable.entries.entries.map fun entry => (entry.1, entry.2.paths)) =
        [("state", ["s", "t"])] ∧
      c.fields.find? "name" = none ∧
      c.aliasTable.resolver "name" = none := by
  let layer : Layer := { fields := some (.ofList [("state", ["s", "t", "s"])]) }
  let files : Files := ⟨fun _ => true, fun _ => .ok "[fields]\nstate = [\"s\", \"t\", \"s\"]\n"⟩
  have hsets : files.Sets "/a/.sift.toml" layer := ⟨_, rfl, by cbv⟩
  have hload :
      Config.load files ["/a/.sift.toml"] =
        .ok (Config.ofLayers [("/a/.sift.toml", layer)]) := by
    cbv
  obtain ⟨_, _, hentries, hnames⟩ := loaded_usable_and_strict hload
  have hname : (Config.ofLayers [("/a/.sift.toml", layer)]).fields.find? "name" = none := by
    cbv
  refine ⟨files, _, hload, hentries, hname, ?_⟩
  rw [Option.eq_none_iff_forall_ne_some]
  intro aliases haliases
  have hnone := (hnames "name" hname).1.1 ⟨aliases, haliases⟩ _ (by simp) layer hsets
  cases hnone

end FieldQuery
