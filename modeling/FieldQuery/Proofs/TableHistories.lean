import Mathlib
import FieldQuery.Aliases
import FieldQuery.Proofs.NameTables

/-!
# Tables of aliases after any history

A table of aliases is collected from entries, gets single entries, and may be told that
other names stand for themselves.  Whatever is done to it and in whatever order, what it
gives can be read off the history: only the steps since the table was last collected
count, the last entry of a name is the one that is found, and a name without an entry
stands for itself if one of these steps said so.

**Results.**

* `GivenPaths.exists_aliases?_iff`, `GivenPaths.paths_of_aliases?`: aliases are made where
  paths are given, and are these paths, each at its first place;
* `find?_apply`, `fallback_apply`: what one step changes;
* `find?_tableAfter`, `fallback_tableAfter`: what a history leads to;
* `getElem?_hashMapOf`: a hash map of the same entries gives the same;
* `table_after_history`: entries, order, number and answers of a table after any history.
-/

namespace FieldQuery

/-- The paths that are given for a field: one, one with others, or a list. -/
inductive GivenPaths where
  | single (path : String)
  | withOthers (primary : String) (others : List String)
  | listed (paths : List String)

namespace GivenPaths

/-- The paths in the order in which they are given. -/
def list : GivenPaths → List String
  | single path => [path]
  | withOthers primary others => primary :: others
  | listed paths => paths

/-- The aliases that are made of the paths; an empty list makes none. -/
def aliases? : GivenPaths → Option Aliases
  | single path => some (.single path)
  | withOthers primary others => some (.ofPrimary primary others)
  | listed paths => Aliases.ofPaths? paths

/-- Aliases are made of any paths that are given, however often one is repeated. -/
theorem exists_aliases?_iff
    (given : GivenPaths) :
    (∃ aliases, given.aliases? = some aliases) ↔ given.list ≠ [] := by
  cases given with
  | single path =>
      exact iff_of_true ⟨_, rfl⟩ (List.cons_ne_nil path [])
  | withOthers primary others =>
      exact iff_of_true ⟨_, rfl⟩ (List.cons_ne_nil primary others)
  | listed paths =>
      constructor
      · rintro ⟨aliases, haliases⟩ rfl
        cases haliases
      · exact Aliases.exists_ofPaths?

/-- Aliases are the given paths, each at its first place. -/
theorem paths_of_aliases?
    {given : GivenPaths} {aliases : Aliases} (haliases : given.aliases? = some aliases) :
    aliases.paths = given.list.eraseDups := by
  cases given with
  | single path =>
      obtain rfl := Option.some.inj haliases
      exact Aliases.paths_ofPrimary path []
  | withOthers primary others =>
      obtain rfl := Option.some.inj haliases
      exact Aliases.paths_ofPrimary primary others
  | listed paths =>
      exact Aliases.paths_ofPaths? haliases

end GivenPaths

/-- Something that is done to a table of aliases. -/
inductive TableStep where
  /-- The table is replaced by one of a list of entries. -/
  | collect (entries : List (String × GivenPaths))
  /-- An entry is added, and the one that it replaces is handed out. -/
  | exchange (name : String) (given : GivenPaths)
  /-- An entry is added. -/
  | insert (name : String) (given : GivenPaths)
  /-- Other names stand for themselves from now on. -/
  | withFallback

/-- The entries of a table for names with given paths; where no path is given there is none. -/
def givenEntries (given : List (String × GivenPaths)) : List (String × Aliases) :=
  given.filterMap fun entry => entry.2.aliases?.map fun aliases => (entry.1, aliases)

namespace TableStep

/-- What a step makes of a table. -/
def apply (t : AliasTable) : TableStep → AliasTable
  | collect entries => .ofList (givenEntries entries)
  | exchange name given =>
      match given.aliases? with
      | some aliases => (t.exchange name aliases).2
      | none => t
  | insert name given =>
      match given.aliases? with
      | some aliases => t.insert name aliases
      | none => t
  | withFallback => t.withFallback

/-- The names that a step writes, with the paths given for them. -/
def given : TableStep → List (String × GivenPaths)
  | collect entries => entries
  | exchange name given | insert name given => [(name, given)]
  | withFallback => []

/-- Whether a step begins a new table. -/
def isCollect : TableStep → Bool
  | collect _ => true
  | _ => false

/-- Whether a step lets other names stand for themselves. -/
def isFallback : TableStep → Bool
  | withFallback => true
  | _ => false

end TableStep

/-- The table after a history that began with an empty one. -/
def tableAfter (history : List TableStep) : AliasTable :=
  history.foldl TableStep.apply {}

section Histories

/-- The steps since a table was last collected, that step included, or all if it never was. -/
def sinceCollect : List TableStep → List TableStep
  | [] => []
  | step :: steps =>
      if steps.any TableStep.isCollect then sinceCollect steps else step :: steps

/-- The names written since a table was last collected, with the paths given for them. -/
def givenSince (history : List TableStep) : List (String × GivenPaths) :=
  (sinceCollect history).flatMap TableStep.given

/-- The entries written since a table was last collected. -/
def writesSince (history : List TableStep) : List (String × Aliases) :=
  givenEntries (givenSince history)

/-- The latest entry of a name since a table was last collected. -/
def latestSince? (history : List TableStep) (name : String) : Option Aliases :=
  (writesSince history).reverse.lookup name

/-- Whether other names have come to stand for themselves since a table was last collected. -/
def fallbackSince (history : List TableStep) : Bool :=
  (sinceCollect history).any TableStep.isFallback

/-- A hash map of entries, a later one replacing an earlier one of the same name. -/
def hashMapOf (entries : List (String × Aliases)) : Std.HashMap String Aliases :=
  entries.foldl (fun m entry => m.insert entry.1 entry.2) ∅

theorem sinceCollect_append_singleton
    (history : List TableStep) (step : TableStep) :
    sinceCollect (history ++ [step]) =
      if step.isCollect then [step] else sinceCollect history ++ [step] := by
  induction history with
  | nil =>
      cases step.isCollect <;> rfl
  | cons first steps ih =>
      rw [List.cons_append, sinceCollect, ih, sinceCollect, List.any_append]
      cases hlast : step.isCollect with
      | true =>
          simp [hlast]
      | false =>
          cases steps.any TableStep.isCollect <;> simp [hlast]

theorem givenEntries_append
    (first second : List (String × GivenPaths)) :
    givenEntries (first ++ second) = givenEntries first ++ givenEntries second :=
  List.filterMap_append

theorem writesSince_append_singleton
    (history : List TableStep) (step : TableStep) :
    writesSince (history ++ [step]) =
      (if step.isCollect then [] else writesSince history) ++ givenEntries step.given := by
  rw [writesSince, givenSince, sinceCollect_append_singleton]
  cases step.isCollect with
  | true =>
      simp
  | false =>
      simp [givenEntries_append, writesSince, givenSince]

theorem fallbackSince_append_singleton
    (history : List TableStep) (step : TableStep) :
    fallbackSince (history ++ [step]) =
      ((!step.isCollect && fallbackSince history) || step.isFallback) := by
  rw [fallbackSince, sinceCollect_append_singleton]
  cases step.isCollect <;> simp [fallbackSince]

theorem latestSince?_append_singleton
    (history : List TableStep) (step : TableStep) (name : String) :
    latestSince? (history ++ [step]) name =
      ((givenEntries step.given).reverse.lookup name).or
        (if step.isCollect then none else latestSince? history name) := by
  rw [latestSince?, writesSince_append_singleton, List.reverse_append, List.lookup_append]
  cases step.isCollect <;> rfl

end Histories

section Steps

/-- Handing out what was replaced changes nothing about the table. -/
theorem apply_exchange
    (t : AliasTable) (name : String) (given : GivenPaths) :
    (TableStep.exchange name given).apply t = (TableStep.insert name given).apply t := by
  simp only [TableStep.apply]
  cases given.aliases? <;> rfl

/-- An entry that is added is found under its name, and other entries as before. -/
theorem find?_apply_insert
    (t : AliasTable) (field : String) (given : GivenPaths) (name : String) :
    ((TableStep.insert field given).apply t).entries.find? name =
      ((givenEntries [(field, given)]).reverse.lookup name).or (t.entries.find? name) := by
  simp only [TableStep.apply, givenEntries, List.filterMap_cons, List.filterMap_nil]
  cases given.aliases? with
  | none =>
      rfl
  | some aliases =>
      exact NameTable.find?_foldl_insert [(field, aliases)] t.entries name

theorem fallback_apply_insert
    (t : AliasTable) (field : String) (given : GivenPaths) :
    ((TableStep.insert field given).apply t).fallback = t.fallback := by
  simp only [TableStep.apply]
  cases given.aliases? <;> rfl

/-- **After a step** its own last entry of a name is found, and otherwise what was there. -/
theorem find?_apply
    (t : AliasTable) (step : TableStep) (name : String) :
    (step.apply t).entries.find? name =
      ((givenEntries step.given).reverse.lookup name).or
        (if step.isCollect then none else t.entries.find? name) := by
  cases step with
  | collect entries =>
      exact NameTable.find?_foldl_insert (givenEntries entries) .empty name
  | exchange field given =>
      rw [apply_exchange]
      exact find?_apply_insert t field given name
  | insert field given =>
      exact find?_apply_insert t field given name
  | withFallback =>
      rfl

theorem fallback_apply
    (t : AliasTable) (step : TableStep) :
    (step.apply t).fallback = ((!step.isCollect && t.fallback) || step.isFallback) := by
  cases step with
  | collect entries =>
      rfl
  | exchange field given =>
      rw [apply_exchange, fallback_apply_insert]
      simp [TableStep.isCollect, TableStep.isFallback]
  | insert field given =>
      rw [fallback_apply_insert]
      simp [TableStep.isCollect, TableStep.isFallback]
  | withFallback =>
      simp [TableStep.apply, TableStep.isFallback, AliasTable.withFallback]

end Steps

section Runs

theorem tableAfter_append_singleton
    (history : List TableStep) (step : TableStep) :
    tableAfter (history ++ [step]) = step.apply (tableAfter history) := by
  simp [tableAfter]

/-- **After a history** the latest entry of a name is found. -/
theorem find?_tableAfter
    (history : List TableStep) (name : String) :
    (tableAfter history).entries.find? name = latestSince? history name := by
  induction history using List.reverseRecOn with
  | nil =>
      rfl
  | append_singleton history step ih =>
      rw [tableAfter_append_singleton, find?_apply, ih, latestSince?_append_singleton]

theorem fallback_tableAfter
    (history : List TableStep) :
    (tableAfter history).fallback = fallbackSince history := by
  induction history using List.reverseRecOn with
  | nil =>
      rfl
  | append_singleton history step ih =>
      rw [tableAfter_append_singleton, fallback_apply, ih, fallbackSince_append_singleton]

/-- A table gives its own entry of a name; only without one may the name stand for itself. -/
theorem resolver_tableAfter
    (history : List TableStep) (name : String) :
    (tableAfter history).resolver name =
      (latestSince? history name).or
        (if fallbackSince history then some (.single name) else none) := by
  rw [AliasTable.resolver, find?_tableAfter, fallback_tableAfter]
  cases latestSince? history name <;> rfl

/-- The names of a table are those that were written. -/
theorem mem_names_tableAfter_iff
    (history : List TableStep) (name : String) :
    name ∈ (tableAfter history).entries.names ↔ name ∈ (writesSince history).map Prod.fst := by
  have hfound :
      name ∈ (tableAfter history).entries.names ↔ (latestSince? history name).isSome := by
    rw [← find?_tableAfter, NameTable.mem_names_iff]
  have hwritten :
      (latestSince? history name).isSome ↔ name ∈ (writesSince history).map Prod.fst := by
    rw [latestSince?, List.lookup_isSome_iff]
    simp
  exact hfound.trans hwritten

/-- There are as many entries as names were written, repetitions apart. -/
theorem size_tableAfter
    (history : List TableStep) :
    (tableAfter history).entries.size = ((writesSince history).map Prod.fst).toFinset.card := by
  have hnames :
      (tableAfter history).entries.names.toFinset =
        ((writesSince history).map Prod.fst).toFinset := by
    ext name
    rw [List.mem_toFinset, List.mem_toFinset, mem_names_tableAfter_iff]
  rw [← hnames, List.toFinset_card_of_nodup (NameTable.nodup_names _), NameTable.names,
    List.length_map, NameTable.size]

/-- What is found in a hash map of entries is the last of them. -/
theorem getElem?_hashMapOf
    (entries : List (String × Aliases)) (name : String) :
    (hashMapOf entries)[name]? = entries.reverse.lookup name := by
  have hfold : ∀ m : Std.HashMap String Aliases,
      (entries.foldl (fun m entry => m.insert entry.1 entry.2) m)[name]? =
        (entries.reverse.lookup name).or m[name]? := by
    induction entries with
    | nil =>
        intro m
        rfl
    | cons entry entries ih =>
        intro m
        rw [List.foldl_cons, ih, Std.HashMap.getElem?_insert, List.reverse_cons,
          List.lookup_append, Option.or_assoc, List.lookup_cons, List.lookup_nil,
          BEq.comm (a := name)]
        cases entry.1 == name <;> rfl
  rw [hashMapOf, hfold, Std.HashMap.getElem?_empty, Option.or_none]

/-- What is written of a name is made of paths that were given for it. -/
theorem exists_given_of_latestSince?
    {history : List TableStep} {name : String} {aliases : Aliases}
    (hlatest : latestSince? history name = some aliases) :
    ∃ given, (name, given) ∈ givenSince history ∧ given.aliases? = some aliases := by
  obtain ⟨_, _, hwrites, _⟩ := List.lookup_eq_some_iff.1 hlatest
  have hmem : (name, aliases) ∈ writesSince history := by
    rw [← List.mem_reverse, hwrites]
    simp
  obtain ⟨entry, hentry, hmade⟩ := List.mem_filterMap.1 hmem
  obtain ⟨_, haliases, heq⟩ := Option.map_eq_some_iff.1 hmade
  cases heq
  exact ⟨entry.2, hentry, haliases⟩

/-- Without a fallback a table gives what a table or a hash map of the same entries gives. -/
theorem resolver_of_fallbackSince_eq_false
    {history : List TableStep} (hfallback : fallbackSince history = false) :
    (tableAfter history).resolver = Resolver.ofEntries (.ofList (writesSince history)) ∧
      ∀ name, (tableAfter history).resolver name = (hashMapOf (writesSince history))[name]? := by
  have hlatest : ∀ name, (tableAfter history).resolver name = latestSince? history name := by
    intro name
    rw [resolver_tableAfter, hfallback]
    exact Option.or_none
  refine ⟨funext fun name => ?_, fun name => ?_⟩
  · have hfind := NameTable.find?_foldl_insert (writesSince history) .empty name
    rw [hlatest]
    exact (hfind.trans Option.or_none).symm
  · rw [hlatest, getElem?_hashMapOf, latestSince?]

/--
**A table of aliases is a map over its whole history.**  Aliases are made wherever paths
are given.  The entries of the table are the latest that were written since it was last
collected, made of the paths given for them, each at its first place; a name without one
stands for itself if that was asked for since then, and is not known otherwise.  Adding an
entry hands out the one that was there.  There are as many entries as names were written,
in the order of their bytes.  Without the fallback a hash map of the same entries gives
the same.
-/
theorem table_after_history
    (history : List TableStep) :
    (∀ given : GivenPaths, (∃ aliases, given.aliases? = some aliases) ↔ given.list ≠ [])
      ∧
    (∀ name aliases, (name, aliases) ∈ (tableAfter history).entries.entries →
      ∃ given, (name, given) ∈ givenSince history ∧ given.aliases? = some aliases ∧
        aliases.paths = given.list.eraseDups ∧ aliases.paths ≠ [] ∧ aliases.paths.Nodup)
      ∧
    (∀ name aliases, (name, aliases) ∈ (tableAfter history).entries.entries ↔
      latestSince? history name = some aliases)
      ∧
    (∀ name, (tableAfter history).resolver name =
      (latestSince? history name).or
        (if fallbackSince history then some (.single name) else none))
      ∧
    (∀ name aliases,
      ((tableAfter history).exchange name aliases).1 = latestSince? history name)
      ∧
    (tableAfter history).entries.size = ((writesSince history).map Prod.fst).toFinset.card
      ∧
    ((tableAfter history).entries.entries.Pairwise fun entry entry' =>
      Text.bytes entry.1 < Text.bytes entry'.1)
      ∧
    (fallbackSince history = false →
      (tableAfter history).resolver = Resolver.ofEntries (.ofList (writesSince history)) ∧
      ∀ name, (tableAfter history).resolver name = (hashMapOf (writesSince history))[name]?) := by
  have hentries : ∀ name aliases, (name, aliases) ∈ (tableAfter history).entries.entries ↔
      latestSince? history name = some aliases := by
    intro name aliases
    rw [← NameTable.find?_eq_some_iff, find?_tableAfter]
  refine ⟨GivenPaths.exists_aliases?_iff, fun name aliases hmem => ?_, hentries,
    resolver_tableAfter history, fun name _ => find?_tableAfter history name,
    size_tableAfter history, ?_, resolver_of_fallbackSince_eq_false⟩
  · obtain ⟨given, hgiven, haliases⟩ :=
      exists_given_of_latestSince? ((hentries name aliases).1 hmem)
    exact ⟨given, hgiven, haliases, GivenPaths.paths_of_aliases? haliases, aliases.nonempty,
      aliases.distinct⟩
  · exact (tableAfter history).entries.sorted.imp Text.lt_iff_bytes_lt.1

/--
A path that is given twice is kept where it came first.  Where no path is given there is no
entry, and a collection forgets both the entries and the fallback that came before it.
-/
theorem table_after_history_repeated_path :
    let history : List TableStep :=
      [.withFallback, .insert "a" (.single "x"),
        .collect [("b", .listed ["y", "z", "y"]), ("c", .listed [])]]
    (∃ aliases, ("b", aliases) ∈ (tableAfter history).entries.entries ∧
      aliases.paths = ["y", "z"]) ∧
    (tableAfter history).resolver "a" = none ∧
    (tableAfter history).resolver "c" = none ∧
    (tableAfter history).entries.size = 1 := by
  intro history
  obtain ⟨hmade, hpaths, hentries, hresolver, -, hsize, -⟩ := table_after_history history
  have hgiven : givenSince history = [("b", .listed ["y", "z", "y"]), ("c", .listed [])] := rfl
  obtain ⟨aliases, haliases⟩ := (hmade (.listed ["y", "z", "y"])).2 (List.cons_ne_nil _ _)
  have hnone : (GivenPaths.listed []).aliases? = none := rfl
  have hwrites : writesSince history = [("b", aliases)] := by
    simp [writesSince, hgiven, givenEntries, haliases, hnone]
  have hmem : ("b", aliases) ∈ (tableAfter history).entries.entries := by
    rw [hentries, latestSince?, hwrites]
    rfl
  refine ⟨⟨aliases, hmem, ?_⟩, ?_, ?_, ?_⟩
  · obtain ⟨given, hgiven', _, heq, _⟩ := hpaths "b" aliases hmem
    obtain rfl : given = .listed ["y", "z", "y"] := by simpa [hgiven] using hgiven'
    rw [heq]
    rfl
  · rw [hresolver, latestSince?, hwrites]
    rfl
  · rw [hresolver, latestSince?, hwrites]
    rfl
  · rw [hsize, hwrites]
    rfl

end Runs

end FieldQuery
