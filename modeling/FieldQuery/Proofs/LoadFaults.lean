import Mathlib
import FieldQuery.Config.Loading
import FieldQuery.Proofs.NameTables
import FieldQuery.Proofs.WrittenDocuments

/-!
# Which configuration files can be loaded

Files are loaded all together or not at all.  Every file has to be readable, to be a
configuration file, and to set nothing that cannot work; a file counts even where
closer ones override all that it sets.  The error is that of the first file at fault,
and of the first thing that is wrong with it.

**Results.**

* `load_eq_ok_iff`, `load_eq_error_iff`: when a single file is usable, and its fault;
* `loadAll_eq_ok_iff`, `loadAll_eq_error_iff`: the same for files one after the other;
* `load_all_or_nothing`: when a configuration is loaded, which one, and which fault
  there is if none is.
-/

namespace FieldQuery

section Usable

/-- The file at a path can be read, and its text sets a layer. -/
def Files.Sets (files : Files) (path : String) (layer : Layer) : Prop :=
  ∃ text, files path = .ok text ∧ Layer.read? text = some layer

/-- Paths for a field: at least one, and none that would be empty after trimming. -/
def HasPaths (paths : List String) : Prop :=
  paths ≠ [] ∧ ∀ path ∈ paths, ∃ c ∈ path.toList, Text.isBlank c = false

/-- A layer that can be in effect: no limit is zero, and every field has paths. -/
structure Layer.IsUsable (layer : Layer) : Prop where
  depth : layer.maxDepth? ≠ some 0
  tokens : layer.maxTokens? ≠ some 0
  fields : ∀ entry ∈ layer.fieldEntries, HasPaths entry.2

/-- What is wrong with the file at a path.  Of several things it is the first. -/
inductive Layer.Faulty (files : Files) (path : String) : ConfigError → Prop
  | unreadable
      {cause : FileError}
      (hfile : files path = .error cause) :
      Faulty files path (.unreadable path cause)
  | malformed
      {text : String}
      (hfile : files path = .ok text)
      (hread : Layer.read? text = none) :
      Faulty files path (.malformed ⟨path, text⟩)
  | zeroDepth
      {layer : Layer}
      (hsets : files.Sets path layer)
      (hdepth : layer.maxDepth? = some 0) :
      Faulty files path (.zeroLimit path .maxDepth)
  | zeroTokens
      {layer : Layer}
      (hsets : files.Sets path layer)
      (hdepth : layer.maxDepth? ≠ some 0)
      (htokens : layer.maxTokens? = some 0) :
      Faulty files path (.zeroLimit path .maxTokens)
  | noPaths
      {layer : Layer} {field : String} {paths : List String}
      (hsets : files.Sets path layer)
      (hdepth : layer.maxDepth? ≠ some 0)
      (htokens : layer.maxTokens? ≠ some 0)
      (hmem : (field, paths) ∈ layer.fieldEntries)
      (hpaths : ¬ HasPaths paths)
      (hleast : ∀ entry ∈ layer.fieldEntries, ¬ HasPaths entry.2 →
        Text.bytes field ≤ Text.bytes entry.1) :
      Faulty files path (.noPaths path field)

theorem Files.Sets.unique
    {files : Files} {path : String} {layer layer' : Layer}
    (hsets : files.Sets path layer) (hsets' : files.Sets path layer') :
    layer = layer' := by
  obtain ⟨text, hfile, hread⟩ := hsets
  obtain ⟨text', hfile', hread'⟩ := hsets'
  obtain rfl : text = text' := Except.ok.inj (hfile.symm.trans hfile')
  exact Option.some.inj (hread.symm.trans hread')

/-- A file with a written document sets the layer of the document's tables. -/
theorem Files.sets_of_document
    {files : Files} {path : String} {text : List Char} {tables : List (String × Toml.Entries)}
    {layer : Layer} (hdocument : Toml.Document text tables)
    (hfile : files path = .ok (String.ofList text))
    (hnames : (tables.map Prod.fst).Nodup)
    (hkeys : ∀ table ∈ tables, (table.2.map Prod.fst).Nodup)
    (hlayer : Layer.ofEntries? (tables.map Toml.headed) = some layer) :
    files.Sets path layer := by
  refine ⟨_, hfile, ?_⟩
  rw [Layer.read?, hdocument.read? hnames hkeys]
  exact hlayer

end Usable

section FileTexts

/-- A text is the one that bytes decode to if they are its bytes. -/
theorem fromUTF8?_eq_some_iff
    {bytes : ByteArray} {text : String} :
    String.fromUTF8? bytes = some text ↔ text.toUTF8 = bytes := by
  unfold String.fromUTF8?
  split
  · simp only [Option.some.injEq]
    constructor
    · rintro rfl
      rfl
    · rintro rfl
      rfl
  · rename_i hinvalid
    simp only [reduceCtorEq, false_iff]
    rintro rfl
    exact hinvalid text.isValidUTF8

/-- A path is read as the text whose bytes are in the file that it leads to. -/
theorem FileTree.read_eq_ok_iff
    {tree : FileTree} {directory : Place} {path text : String} :
    tree.read directory path = .ok text ↔
      ∃ place, tree.locate directory path = .ok place ∧
        tree.bytes? place = some text.toUTF8 := by
  unfold FileTree.read
  dsimp only
  cases tree.locate directory path with
  | error cause =>
      simp
  | ok place =>
      have hplace :
          (∃ place', Except.ok (ε := FileError) place = .ok place' ∧
            tree.bytes? place' = some text.toUTF8) ↔
              tree.bytes? place = some text.toUTF8 := by
        simp
      rw [hplace]
      dsimp only
      cases tree.bytes? place with
      | none =>
          simp
      | some bytes =>
          dsimp only
          rw [Option.some.injEq, eq_comm (a := bytes), ← fromUTF8?_eq_some_iff]
          cases String.fromUTF8? bytes <;> simp

end FileTexts

section OneFile

namespace Layer

variable {files : Files} {path : String} {layer : Layer}

theorem sorted_fieldEntries
    (layer : Layer) :
    layer.fieldEntries.Pairwise fun a b => a.1 < b.1 := by
  unfold fieldEntries
  cases layer.fields with
  | none =>
      exact List.Pairwise.nil
  | some fields =>
      exact fields.sorted

theorem lacksPath_eq_false_iff
    {paths : List String} :
    (paths.isEmpty || paths.any Text.allBlank) = false ↔ HasPaths paths := by
  simp [HasPaths, Text.allBlank]

theorem fieldWithoutPath?_eq_none_iff :
    layer.fieldWithoutPath? = none ↔ ∀ entry ∈ layer.fieldEntries, HasPaths entry.2 := by
  simp only [fieldWithoutPath?, Option.map_eq_none_iff, List.find?_eq_none, Bool.not_eq_true,
    lacksPath_eq_false_iff]

/-- The field that is blamed is the least of those that lack a path. -/
theorem fieldWithoutPath?_eq_some
    {field : String} (hfield : layer.fieldWithoutPath? = some field) :
    ∃ paths, (field, paths) ∈ layer.fieldEntries ∧ ¬ HasPaths paths ∧
      ∀ entry ∈ layer.fieldEntries, ¬ HasPaths entry.2 →
        Text.bytes field ≤ Text.bytes entry.1 := by
  obtain ⟨⟨field, paths⟩, hfind, rfl⟩ := Option.map_eq_some_iff.1 hfield
  obtain ⟨hlacks, before, after, hentries, hbefore⟩ := List.find?_eq_some_iff_append.1 hfind
  have hsorted := layer.sorted_fieldEntries
  rw [hentries] at hsorted ⊢
  refine ⟨paths, by simp, fun hpaths => ?_, fun entry hmem hbad => ?_⟩
  · rw [lacksPath_eq_false_iff.2 hpaths] at hlacks
    cases hlacks
  · rw [← Text.le_iff_bytes_le]
    rcases List.mem_append.1 hmem with hearlier | hlater
    · -- an earlier field has its paths
      have hgood := hbefore entry hearlier
      rw [Bool.not_eq_true', lacksPath_eq_false_iff] at hgood
      exact absurd hgood hbad
    · rcases List.mem_cons.1 hlater with rfl | hlater
      · exact String.le_refl _
      · have hbehind := (List.pairwise_cons.1 (List.pairwise_append.1 hsorted).2.1).1
        exact Std.le_of_lt (hbehind entry hlater)

/-- The least field that lacks a path is blamed. -/
theorem fieldWithoutPath?_of_least
    {field : String} {paths : List String}
    (hmem : (field, paths) ∈ layer.fieldEntries) (hpaths : ¬ HasPaths paths)
    (hleast : ∀ entry ∈ layer.fieldEntries, ¬ HasPaths entry.2 →
      Text.bytes field ≤ Text.bytes entry.1) :
    layer.fieldWithoutPath? = some field := by
  cases hfield : layer.fieldWithoutPath? with
  | none =>
      exact absurd (fieldWithoutPath?_eq_none_iff.1 hfield _ hmem) hpaths
  | some field' =>
      obtain ⟨paths', hmem', hpaths', hleast'⟩ := fieldWithoutPath?_eq_some hfield
      have hle := Text.le_iff_bytes_le.2 (hleast _ hmem' hpaths')
      have hge := Text.le_iff_bytes_le.2 (hleast' _ hmem hpaths)
      rw [String.le_antisymm hle hge]

/-- Nothing is wrong with a layer that can be in effect. -/
theorem fault?_eq_none_iff :
    layer.fault? path = none ↔ layer.IsUsable := by
  unfold fault? zeroLimit?
  constructor
  · intro hnone
    split at hnone
    · cases hnone
    · rename_i hzero
      split at hzero
      · cases hzero
      split at hzero
      · cases hzero
      rename_i hdepth htokens
      rw [Option.map_eq_none_iff, fieldWithoutPath?_eq_none_iff] at hnone
      exact ⟨hdepth, htokens, hnone⟩
  · rintro ⟨hdepth, htokens, hfields⟩
    rw [if_neg hdepth, if_neg htokens]
    rw [← fieldWithoutPath?_eq_none_iff] at hfields
    simp [hfields]

/-- What is wrong with a layer is the fault of the file that sets it. -/
theorem faulty_of_fault?
    {err : ConfigError} (hsets : files.Sets path layer)
    (hfault : layer.fault? path = some err) :
    Faulty files path err := by
  unfold fault? zeroLimit? at hfault
  by_cases hdepth : layer.maxDepth? = some 0
  · rw [if_pos hdepth] at hfault
    obtain rfl := Option.some.inj hfault
    exact .zeroDepth hsets hdepth
  by_cases htokens : layer.maxTokens? = some 0
  · rw [if_neg hdepth, if_pos htokens] at hfault
    obtain rfl := Option.some.inj hfault
    exact .zeroTokens hsets hdepth htokens
  · rw [if_neg hdepth, if_neg htokens] at hfault
    obtain ⟨field, hfield, rfl⟩ := Option.map_eq_some_iff.1 hfault
    obtain ⟨paths, hmem, hpaths, hleast⟩ := fieldWithoutPath?_eq_some hfield
    exact .noPaths hsets hdepth htokens hmem hpaths hleast

/-- A file is loaded, or something is wrong with it. -/
theorem load_cases
    (files : Files) (path : String) :
    (∃ layer, load files path = .ok layer ∧ files.Sets path layer ∧ layer.IsUsable) ∨
      ∃ err, load files path = .error err ∧ Faulty files path err := by
  unfold load ofText
  cases hfile : files path with
  | error cause =>
      exact .inr ⟨_, rfl, .unreadable hfile⟩
  | ok text =>
      cases hread : read? text with
      | none =>
          exact .inr ⟨.malformed ⟨path, text⟩, by simp [hread], .malformed hfile hread⟩
      | some layer =>
          have hsets : files.Sets path layer := ⟨text, hfile, hread⟩
          cases hfault : layer.fault? path with
          | some err =>
              exact .inr ⟨err, by simp [hread, hfault], faulty_of_fault? hsets hfault⟩
          | none =>
              exact .inl ⟨layer, by simp [hread, hfault], hsets, fault?_eq_none_iff.1 hfault⟩

/-- A file is loaded if it sets a layer that can be in effect. -/
theorem load_eq_ok_iff :
    load files path = .ok layer ↔ files.Sets path layer ∧ layer.IsUsable := by
  constructor
  · intro hload
    rcases load_cases files path with ⟨layer', hload', hsets, husable⟩ | ⟨err, hload', _⟩
    · obtain rfl := Except.ok.inj (hload.symm.trans hload')
      exact ⟨hsets, husable⟩
    · cases hload.symm.trans hload'
  · rintro ⟨⟨text, hfile, hread⟩, husable⟩
    simp [load, ofText, hfile, hread, fault?_eq_none_iff.2 husable]

theorem exists_load_eq_ok_iff :
    (∃ layer, load files path = .ok layer) ↔
      ∃ layer, files.Sets path layer ∧ layer.IsUsable :=
  exists_congr fun _ => load_eq_ok_iff

/-- A file is refused for what is wrong with it, and for nothing else. -/
theorem load_eq_error_iff
    {err : ConfigError} :
    load files path = .error err ↔ Faulty files path err := by
  constructor
  · intro hload
    rcases load_cases files path with ⟨layer, hload', _⟩ | ⟨err', hload', hfaulty⟩
    · cases hload.symm.trans hload'
    · obtain rfl := Except.error.inj (hload.symm.trans hload')
      exact hfaulty
  · intro hfaulty
    cases hfaulty with
    | unreadable hfile =>
        simp [load, hfile]
    | malformed hfile hread =>
        simp [load, ofText, hfile, hread]
    | zeroDepth hsets hdepth =>
        obtain ⟨text, hfile, hread⟩ := hsets
        simp [load, ofText, hfile, hread, fault?, zeroLimit?, hdepth]
    | zeroTokens hsets hdepth htokens =>
        obtain ⟨text, hfile, hread⟩ := hsets
        simp [load, ofText, hfile, hread, fault?, zeroLimit?, hdepth, htokens]
    | noPaths hsets hdepth htokens hmem hpaths hleast =>
        obtain ⟨text, hfile, hread⟩ := hsets
        have hfield := fieldWithoutPath?_of_least hmem hpaths hleast
        simp [load, ofText, hfile, hread, fault?, zeroLimit?, hdepth, htokens, hfield]

/-- The error names the file at fault. -/
theorem Faulty.path_eq
    {err : ConfigError} (hfaulty : Faulty files path err) :
    err.path = path := by
  cases hfaulty <;> rfl

end Layer

end OneFile

section ManyFiles

namespace Layer

variable {files : Files} {paths : List String}

/-- Several files are loaded if each of them is, and give their layers in order. -/
theorem loadAll_eq_ok_iff
    {layers : List (String × Layer)} :
    loadAll files paths = .ok layers ↔
      layers.map Prod.fst = paths ∧
        ∀ entry ∈ layers, load files entry.1 = .ok entry.2 := by
  induction paths generalizing layers with
  | nil =>
      cases layers <;> simp [loadAll]
  | cons path paths ih =>
      simp only [loadAll]
      constructor
      · intro hall
        cases hload : load files path with
        | error err =>
            simp [hload] at hall
        | ok layer =>
            cases hrest : loadAll files paths with
            | error err =>
                simp [hload, hrest] at hall
            | ok rest =>
                simp only [hload, hrest, Except.ok.injEq] at hall
                obtain rfl := hall
                obtain ⟨hpaths, hloads⟩ := ih.1 hrest
                refine ⟨by rw [List.map_cons, hpaths], fun entry hmem => ?_⟩
                rcases List.mem_cons.1 hmem with rfl | hmem
                · exact hload
                · exact hloads entry hmem
      · rintro ⟨hpaths, hloads⟩
        obtain ⟨⟨path', layer⟩, rest, rfl, rfl, hrest⟩ := List.map_eq_cons_iff.1 hpaths
        have hload : load files path' = .ok layer := hloads (path', layer) (by simp)
        have htail := ih.2 ⟨hrest, fun entry hmem => hloads entry (List.mem_cons_of_mem _ hmem)⟩
        simp [hload, htail]

/-- Several files are refused for the first of them that is. -/
theorem loadAll_eq_error_iff
    {err : ConfigError} :
    loadAll files paths = .error err ↔
      ∃ before path after, paths = before ++ path :: after ∧
        (∀ earlier ∈ before, ∃ layer, load files earlier = .ok layer) ∧
        load files path = .error err := by
  induction paths with
  | nil =>
      simp [loadAll]
  | cons path paths ih =>
      rw [loadAll]
      constructor
      · intro hall
        cases hload : load files path with
        | error err' =>
            simp only [hload, Except.error.injEq] at hall
            obtain rfl := hall
            exact ⟨[], path, paths, rfl, by simp, hload⟩
        | ok layer =>
            cases hrest : loadAll files paths with
            | ok layers =>
                simp [hload, hrest] at hall
            | error err' =>
                simp only [hload, hrest, Except.error.injEq] at hall
                obtain rfl := hall
                obtain ⟨before, path', after, rfl, hbefore, hfault⟩ := ih.1 hrest
                refine ⟨path :: before, path', after, rfl, fun earlier hmem => ?_, hfault⟩
                rcases List.mem_cons.1 hmem with rfl | hmem
                · exact ⟨layer, hload⟩
                · exact hbefore earlier hmem
      · rintro ⟨before, path', after, hpaths, hbefore, hfault⟩
        cases before with
        | nil =>
            obtain ⟨rfl, rfl⟩ := List.cons.inj hpaths
            simp [hfault]
        | cons first before =>
            rw [List.cons_append] at hpaths
            obtain ⟨rfl, rfl⟩ := List.cons.inj hpaths
            obtain ⟨layer, hload⟩ := hbefore path (by simp)
            have hrest := ih.2
              ⟨before, path', after, rfl,
                fun earlier hmem => hbefore earlier (List.mem_cons_of_mem _ hmem), hfault⟩
            simp [hload, hrest]

end Layer

/-- Files are loaded together if each of them can be loaded. -/
theorem Layer.exists_loadAll_eq_ok_iff
    {files : Files} {paths : List String} :
    (∃ layers, Layer.loadAll files paths = .ok layers) ↔
      ∀ path ∈ paths, ∃ layer, Layer.load files path = .ok layer := by
  cases hall : Layer.loadAll files paths with
  | ok layers =>
      obtain ⟨rfl, hloads⟩ := Layer.loadAll_eq_ok_iff.1 hall
      refine iff_of_true ⟨layers, rfl⟩ fun path hmem => ?_
      obtain ⟨entry, hentry, rfl⟩ := List.mem_map.1 hmem
      exact ⟨entry.2, hloads entry hentry⟩
  | error err =>
      obtain ⟨before, path, after, rfl, _, hfault⟩ := Layer.loadAll_eq_error_iff.1 hall
      refine iff_of_false (by simp) fun hloads => ?_
      obtain ⟨layer, hload⟩ := hloads path (by simp)
      cases hfault.symm.trans hload

namespace Config

variable {files : Files} {paths : List String}

/-- A configuration is loaded from layers that can all be in effect. -/
theorem load_eq_ok_iff
    {c : Config} :
    load files paths = .ok c ↔
      ∃ layers : List (String × Layer), layers.map Prod.fst = paths ∧
        (∀ entry ∈ layers, files.Sets entry.1 entry.2 ∧ entry.2.IsUsable) ∧
        c = ofLayers layers := by
  unfold load
  constructor
  · intro hload
    cases hall : Layer.loadAll files paths with
    | error err =>
        simp [hall] at hload
    | ok layers =>
        simp only [hall, Except.ok.injEq] at hload
        obtain ⟨hpaths, hloads⟩ := Layer.loadAll_eq_ok_iff.1 hall
        exact ⟨layers, hpaths, fun entry hmem => Layer.load_eq_ok_iff.1 (hloads entry hmem),
          hload.symm⟩
  · rintro ⟨layers, hpaths, husable, rfl⟩
    have hall : Layer.loadAll files paths = .ok layers :=
      Layer.loadAll_eq_ok_iff.2
        ⟨hpaths, fun entry hmem => Layer.load_eq_ok_iff.2 (husable entry hmem)⟩
    simp [hall]

theorem exists_load_eq_ok_iff :
    (∃ c, load files paths = .ok c) ↔
      ∀ path ∈ paths, ∃ layer, files.Sets path layer ∧ layer.IsUsable := by
  simp only [← Layer.exists_load_eq_ok_iff, ← Layer.exists_loadAll_eq_ok_iff]
  unfold load
  cases Layer.loadAll files paths <;> simp

/-- No configuration is loaded if there is a first file at fault. -/
theorem load_eq_error_iff
    {err : ConfigError} :
    load files paths = .error err ↔
      ∃ before path after, paths = before ++ path :: after ∧
        (∀ earlier ∈ before, ∃ layer, files.Sets earlier layer ∧ layer.IsUsable) ∧
        Layer.Faulty files path err := by
  simp only [← Layer.exists_load_eq_ok_iff, ← Layer.load_eq_error_iff,
    ← Layer.loadAll_eq_error_iff]
  unfold load
  cases Layer.loadAll files paths <;> simp

end Config

end ManyFiles

/--
**Loading is all or nothing, and blames the first file at fault.**  A configuration is
loaded if every file can be read, is a configuration file and sets nothing that cannot
work; it is then made of the layers of all of them.  If not, the error is that of the
first file at fault, which it names: of the first thing that is wrong with it, which is
in this order that it cannot be read, is malformed, sets the depth or the number of
tokens to zero, or lacks a path for a field, the least such field by its bytes.  A file
can be read if its bytes are those of a text.
-/
theorem load_all_or_nothing
    (files : Files) (paths : List String) :
    (∀ c, Config.load files paths = .ok c ↔
      ∃ layers : List (String × Layer), layers.map Prod.fst = paths ∧
        (∀ entry ∈ layers, files.Sets entry.1 entry.2 ∧ entry.2.IsUsable) ∧
        c = Config.ofLayers layers)
      ∧
    ((∃ c, Config.load files paths = .ok c) ↔
      ∀ path ∈ paths, ∃ layer, files.Sets path layer ∧ layer.IsUsable)
      ∧
    (∀ err, Config.load files paths = .error err ↔
      ∃ before path after, paths = before ++ path :: after ∧
        (∀ earlier ∈ before, ∃ layer, files.Sets earlier layer ∧ layer.IsUsable) ∧
        Layer.Faulty files path err ∧ err.path = path)
      ∧
    (∀ (tree : FileTree) (directory : Place) (path text : String),
      tree.read directory path = .ok text ↔
        ∃ place, tree.locate directory path = .ok place ∧
          tree.bytes? place = some text.toUTF8) := by
  refine ⟨fun c => Config.load_eq_ok_iff, Config.exists_load_eq_ok_iff, fun err => ?_,
    fun tree directory path text => FileTree.read_eq_ok_iff⟩
  rw [Config.load_eq_error_iff]
  constructor
  · rintro ⟨before, path, after, hpaths, hbefore, hfaulty⟩
    exact ⟨before, path, after, hpaths, hbefore, hfaulty, hfaulty.path_eq⟩
  · rintro ⟨before, path, after, hpaths, hbefore, hfaulty, _⟩
    exact ⟨before, path, after, hpaths, hbefore, hfaulty⟩

/--
Of five files with faults among files that are fine, whichever comes first is blamed, and
for its first fault: a depth of zero comes before a number of tokens of zero, and that
before a field without paths.  Of two such fields the lesser is named, though the other is
written first.
-/
theorem load_all_or_nothing_first_blamed :
    let files : Files :=
      { hasFile := fun path => path ≠ "missing"
        text := fun path =>
          match path with
          | "fine" => .ok "[fields]\na = [\"x\", \"y\"]\n"
          | "malformed" => .ok "["
          | "depth" => .ok "[limits]\nmax_depth = 0\nmax_tokens = 0\n"
          | "tokens" => .ok "[limits]\nmax_tokens = 0\n\n[fields]\na = []\n"
          | "paths" => .ok "[fields]\nc = []\nb = [\"x\", \" \"]\na = [\"y\"]\n"
          | _ => .error .notFound }
    (∃ c, Config.load files ["fine", "fine"] = .ok c) ∧
    Config.load files ["fine", "missing", "tokens"] =
      .error (.unreadable "missing" .notFound) ∧
    Config.load files ["fine", "malformed", "missing"] =
      .error (.malformed ⟨"malformed", "["⟩) ∧
    Config.load files ["depth", "malformed", "paths"] =
      .error (.zeroLimit "depth" .maxDepth) ∧
    Config.load files ["tokens", "fine", "depth"] =
      .error (.zeroLimit "tokens" .maxTokens) ∧
    Config.load files ["fine", "paths", "tokens", "malformed"] =
      .error (.noPaths "paths" "b") := by
  intro files
  have hzero : Toml.ValueText (natDigits 0) (.integer (0 : Nat)) :=
    Toml.valueText_natDigits (by decide)
  have hfine : ∃ layer, files.Sets "fine" layer ∧ layer.IsUsable := by
    let layer : Layer := { fields := some (.ofList [("a", ["x", "y"])]) }
    have husable : layer.fault? "fine" = none := by decide
    exact ⟨layer, ⟨_, rfl, by cbv⟩, Layer.fault?_eq_none_iff.1 husable⟩
  have hmissing : Layer.Faulty files "missing" (.unreadable "missing" .notFound) :=
    .unreadable rfl
  have hmalformed : Layer.Faulty files "malformed" (.malformed ⟨"malformed", "["⟩) :=
    .malformed rfl (by cbv)
  have hdepth : Layer.Faulty files "depth" (.zeroLimit "depth" .maxDepth) := by
    have hdocument :
        Toml.Document _
          [("limits", [("max_depth", .integer (0 : Nat)), ("max_tokens", .integer (0 : Nat))])] :=
      .last (.cons "max_depth" hzero (.cons "max_tokens" hzero .nil))
    have hsets : files.Sets "depth" _ :=
      Files.sets_of_document hdocument rfl (by decide) (by decide) rfl
    exact .zeroDepth hsets rfl
  have htokens : Layer.Faulty files "tokens" (.zeroLimit "tokens" .maxTokens) := by
    have hdocument :
        Toml.Document _
          [("limits", [("max_tokens", .integer (0 : Nat))]), ("fields", [("a", .array [])])] :=
      .more (.cons "max_tokens" hzero .nil)
        (.last (.cons "a" (Toml.valueText_writeTexts []) .nil))
    have hsets : files.Sets "tokens" _ :=
      Files.sets_of_document hdocument rfl (by decide) (by decide) rfl
    exact .zeroTokens hsets (by decide) rfl
  have hpaths : Layer.Faulty files "paths" (.noPaths "paths" "b") := by
    let layer : Layer := { fields := some (.ofList [("c", []), ("b", ["x", " "]), ("a", ["y"])]) }
    have hsets : files.Sets "paths" layer := ⟨_, rfl, by cbv⟩
    exact Layer.faulty_of_fault? hsets (by decide)
  have hblamed : ∀ {before after : List String} {path : String} {err : ConfigError},
      (∀ earlier ∈ before, earlier = "fine") → Layer.Faulty files path err →
      Config.load files (before ++ path :: after) = .error err := by
    intro before after path err hbefore hfaulty
    refine ((load_all_or_nothing files _).2.2.1 err).2
      ⟨before, path, after, rfl, fun earlier hmem => ?_, hfaulty, hfaulty.path_eq⟩
    rw [hbefore earlier hmem]
    exact hfine
  refine ⟨(load_all_or_nothing files _).2.1.2 (by simpa using hfine), ?_, ?_, ?_, ?_, ?_⟩
  · exact hblamed (List.forall_mem_singleton.2 rfl) hmissing
  · exact hblamed (List.forall_mem_singleton.2 rfl) hmalformed
  · exact hblamed (List.forall_mem_nil _) hdepth
  · exact hblamed (List.forall_mem_nil _) htokens
  · exact hblamed (List.forall_mem_singleton.2 rfl) hpaths

end FieldQuery
