import Mathlib
import FieldQuery.Proofs.Lineage
import FieldQuery.Proofs.LoadFaults

/-!
# What a root keeps out

Configuration files are looked for in a directory and those above it, up to the first
that says it is a root.  Two file systems that look alike up to there give the same
configuration, or the same error, whatever lies further up or in the home directory.
Without a root, what lies in the directories above and in the home directory is all
that counts.

**Results.**

* `climb_congr`, `climb_append_root`: the way up depends on the files met, and ends at
  a root;
* `load_congr`: loading depends on the files that are loaded;
* `root_isolates`: what the configuration of a directory depends on.
-/

namespace FieldQuery

section Agreement

/-- Two file systems show the same at a path: no file, or two that read alike. -/
structure Files.AgreeAt (files files' : Files) (path : String) : Prop where
  hasFile_eq : files.hasFile path = files'.hasFile path
  read_eq : files.hasFile path = true → files path = files' path

/-- There is a file at a path, and it says that files further up are left out. -/
structure Files.SetsRoot (files : Files) (path : String) : Prop where
  hasFile : files.hasFile path = true
  declares : ∃ layer, files.Sets path layer ∧ layer.root = some true

variable {files files' : Files} {path : String}

theorem Layer.isRoot_eq_true_iff :
    Layer.isRoot files path = true ↔ ∃ layer, files.Sets path layer ∧ layer.root = some true := by
  unfold Layer.isRoot Files.Sets
  cases files path with
  | error cause =>
      simp
  | ok text =>
      cases hread : Layer.read? text <;> simp [hread]

/-- A root is a file of which it is found out that it is one. -/
theorem Files.setsRoot_iff :
    files.SetsRoot path ↔ files.hasFile path = true ∧ Layer.isRoot files path = true := by
  rw [Layer.isRoot_eq_true_iff]
  exact ⟨fun hroot => ⟨hroot.hasFile, hroot.declares⟩, fun ⟨hfile, hlayer⟩ => ⟨hfile, hlayer⟩⟩

theorem Files.AgreeAt.isRoot_eq
    (hagree : files.AgreeAt files' path) (hfile : files.hasFile path = true) :
    Layer.isRoot files path = Layer.isRoot files' path := by
  unfold Layer.isRoot
  rw [hagree.read_eq hfile]

theorem Files.AgreeAt.setsRoot
    (hagree : files.AgreeAt files' path) (hroot : files.SetsRoot path) :
    files'.SetsRoot path := by
  obtain ⟨hfile, hisRoot⟩ := Files.setsRoot_iff.1 hroot
  refine Files.setsRoot_iff.2 ⟨?_, ?_⟩
  · rw [← hagree.hasFile_eq, hfile]
  · rw [← hagree.isRoot_eq hfile, hisRoot]

end Agreement

namespace Config

section Climbing

variable {files files' : Files} {directories inner outer : List String} {root : String}

/-- What is found on the way up depends on the files met. -/
theorem climb_congr
    (hagree : ∀ directory ∈ directories,
      files.AgreeAt files' (Path.child directory fileName)) :
    climb files directories = climb files' directories := by
  induction directories with
  | nil =>
      rfl
  | cons directory directories ih =>
      have hhere := hagree directory (by simp)
      have habove := ih fun up hmem => hagree up (List.mem_cons_of_mem _ hmem)
      rw [climb, climb, ← hhere.hasFile_eq, habove]
      cases hfile : files.hasFile (Path.child directory fileName) with
      | false =>
          rfl
      | true =>
          rw [hhere.isRoot_eq hfile]

/-- The way up ends at a root. -/
theorem climb_append_root
    (inner outer : List String) (hroot : files.SetsRoot (Path.child root fileName)) :
    climb files (inner ++ root :: outer) = climb files (inner ++ [root]) ∧
      (climb files (inner ++ root :: outer)).any Found.isRoot = true := by
  obtain ⟨hfile, hisRoot⟩ := Files.setsRoot_iff.1 hroot
  induction inner with
  | nil =>
      simp [climb, hfile, hisRoot]
  | cons directory inner ih =>
      simp only [List.cons_append, climb]
      split
      · split
        · simp
        · simpa using ih
      · exact ih

/-- What is found is the configuration file of one of the directories. -/
theorem exists_of_mem_climb
    {found : Found} (hmem : found ∈ climb files directories) :
    ∃ directory ∈ directories, found.path = Path.child directory fileName ∧
      files.hasFile found.path = true := by
  induction directories with
  | nil =>
      simp [climb] at hmem
  | cons directory directories ih =>
      simp only [climb] at hmem
      split at hmem
      · rename_i hfile
        split at hmem
        · rw [List.mem_singleton] at hmem
          exact ⟨directory, by simp, by rw [hmem], by rw [hmem]; exact hfile⟩
        · rcases List.mem_cons.1 hmem with rfl | hmem
          · exact ⟨directory, by simp, rfl, hfile⟩
          · obtain ⟨up, hup, hfound⟩ := ih hmem
            exact ⟨up, List.mem_cons_of_mem _ hup, hfound⟩
      · obtain ⟨up, hup, hfound⟩ := ih hmem
        exact ⟨up, List.mem_cons_of_mem _ hup, hfound⟩

/-- What is found on the way up reads alike where the file systems agree. -/
theorem read_eq_of_mem_climb
    (hagree : ∀ directory ∈ directories,
      files.AgreeAt files' (Path.child directory fileName))
    {path : String} (hmem : path ∈ (climb files directories).map Found.path) :
    files path = files' path := by
  obtain ⟨found, hfound, rfl⟩ := List.mem_map.1 hmem
  obtain ⟨directory, hdirectory, hpath, hfile⟩ := exists_of_mem_climb hfound
  rw [hpath] at hfile ⊢
  exact (hagree directory hdirectory).read_eq hfile

end Climbing

section Loading

variable {files files' : Files} {paths : List String}

theorem loadAll_congr
    (hread : ∀ path ∈ paths, files path = files' path) :
    Layer.loadAll files paths = Layer.loadAll files' paths := by
  induction paths with
  | nil =>
      rfl
  | cons path paths ih =>
      have hload : Layer.load files path = Layer.load files' path := by
        unfold Layer.load
        rw [hread path (by simp)]
      rw [Layer.loadAll, Layer.loadAll, hload,
        ih fun other hmem => hread other (List.mem_cons_of_mem _ hmem)]

/-- Loading depends on the files that are loaded. -/
theorem load_congr
    (hread : ∀ path ∈ paths, files path = files' path) :
    load files paths = load files' paths := by
  unfold load
  rw [loadAll_congr hread]

end Loading

section Discovery

variable {files files' : Files} {home home' directory : String}

/-- Where a root is found, what was met on the way up to it is all there is. -/
theorem discover_of_root
    {inner outer : List String} {root : String}
    (hlineage : Path.lineage directory = inner ++ root :: outer)
    (hroot : files.SetsRoot (Path.child root fileName)) :
    discover files home directory = (climb files (inner ++ [root])).map Found.path := by
  obtain ⟨hclimb, hany⟩ := climb_append_root inner outer hroot
  simp only [discover, hlineage, hany, Bool.true_or, if_true]
  rw [hclimb]

/-- What is discovered was met on the way up, or is the file in the home directory. -/
theorem mem_discover
    {path : String} (hmem : path ∈ discover files home directory) :
    path ∈ (climb files (Path.lineage directory)).map Found.path ∨
      path = homeFile home ∧ files.hasFile path = true := by
  dsimp only [discover] at hmem
  split at hmem
  · exact .inl hmem
  · rename_i hadded
    simp only [Bool.or_eq_true, Bool.not_eq_true', not_or, Bool.not_eq_false] at hadded
    rcases List.mem_append.1 hmem with hmet | hhome
    · exact .inl hmet
    · obtain rfl := List.mem_singleton.1 hhome
      exact .inr ⟨rfl, hadded.1.2⟩

/-- Where two file systems agree up to a root, they give the same configuration. -/
theorem load_discover_of_root
    {inner outer : List String} {root : String}
    (hlineage : Path.lineage directory = inner ++ root :: outer)
    (hroot : files.SetsRoot (Path.child root fileName))
    (hagree : ∀ up ∈ inner ++ [root], files.AgreeAt files' (Path.child up fileName)) :
    load files (discover files home directory) =
      load files' (discover files' home' directory) := by
  have hroot' : files'.SetsRoot (Path.child root fileName) :=
    (hagree root (by simp)).setsRoot hroot
  rw [discover_of_root hlineage hroot, discover_of_root hlineage hroot', ← climb_congr hagree]
  exact load_congr fun path hmem => read_eq_of_mem_climb hagree hmem

/-- Where two file systems agree all the way up and at home, they give the same configuration. -/
theorem load_discover_congr
    (hagree : ∀ up ∈ Path.lineage directory, files.AgreeAt files' (Path.child up fileName))
    (hhome : files.AgreeAt files' (homeFile home)) :
    load files (discover files home directory) =
      load files' (discover files' home directory) := by
  have hdiscover : discover files home directory = discover files' home directory := by
    simp only [discover, climb_congr hagree, hhome.hasFile_eq]
  rw [← hdiscover]
  refine load_congr fun path hmem => ?_
  rcases mem_discover hmem with hmet | ⟨rfl, hfile⟩
  · exact read_eq_of_mem_climb hagree hmet
  · exact hhome.read_eq hfile

end Discovery

end Config

/--
**A root isolates a project.**  Let two file systems agree on the configuration files of
a directory and of those above it, up to one whose file says it is a root.  Then they
give the same configuration for that directory or the same error, whatever lies above
the root, and wherever the home directory is and whatever it holds.  Without a root, the
configuration depends on nothing but the files in the directory, in those above it and
in the home directory.
-/
theorem root_isolates
    {directory : String} (habsolute : Path.IsAbsolute directory) (files files' : Files) :
    (∀ root, Path.Reaches directory root →
      files.SetsRoot (Path.child root Config.fileName) →
      (∀ up, Path.Reaches directory up → Path.Reaches up root →
        files.AgreeAt files' (Path.child up Config.fileName)) →
      ∀ home home',
        Config.load files (Config.discover files home directory) =
          Config.load files' (Config.discover files' home' directory))
      ∧
    ((∀ up, Path.Reaches directory up →
        files.AgreeAt files' (Path.child up Config.fileName)) →
      ∀ home, files.AgreeAt files' (Path.child home Config.fileName) →
        Config.load files (Config.discover files home directory) =
          Config.load files' (Config.discover files' home directory)) := by
  constructor
  · intro root hreaches hroot hagree home home'
    obtain ⟨inner, outer, hlineage, hinner⟩ :=
      Path.exists_lineage_eq_append habsolute hreaches
    refine Config.load_discover_of_root hlineage hroot fun up hmem => ?_
    rcases List.mem_append.1 hmem with hmem | hmem
    · exact hagree up (hinner up hmem).1 (hinner up hmem).2
    · rw [List.mem_singleton] at hmem
      rw [hmem]
      exact hagree root hreaches .refl
  · intro hagree home hhome
    exact Config.load_discover_congr
      (fun up hmem => hagree up (Path.reaches_of_mem_lineage habsolute hmem)) hhome

/-- A malformed file above a root is never seen, though it could not be loaded. -/
theorem root_isolates_from_malformed_file :
    ∃ files files' : Files,
      Path.IsAbsolute "/p/w" ∧
      Path.Reaches "/p/w" "/p" ∧
      files.SetsRoot (Path.child "/p" Config.fileName) ∧
      (∀ up, Path.Reaches "/p/w" up → Path.Reaches up "/p" →
        files.AgreeAt files' (Path.child up Config.fileName)) ∧
      Config.load files' ["/.sift.toml"] = .error (.malformed ⟨"/.sift.toml", "["⟩) ∧
      Config.load files (Config.discover files "/h" "/p/w") =
        Config.load files' (Config.discover files' "/" "/p/w") := by
  let files : Files :=
    { hasFile := fun path => path = "/p/.sift.toml"
      text := fun path => if path = "/p/.sift.toml" then .ok "root = true\n" else .error .notFound }
  let files' : Files :=
    { hasFile := fun path => path = "/.sift.toml" || files.hasFile path
      text := fun path => if path = "/.sift.toml" then .ok "[" else files path }
  have habsolute : Path.IsAbsolute "/p/w" := rfl
  have hreaches : Path.Reaches "/p/w" "/p" := .single (by decide)
  have hroot : files.SetsRoot (Path.child "/p" Config.fileName) :=
    ⟨by decide, { root := some true }, ⟨"root = true\n", by cbv, by cbv⟩, rfl⟩
  have hsame : ∀ path, path ≠ "/.sift.toml" → files.AgreeAt files' path := by
    intro path hpath
    have hread : files path = files' path := (if_neg hpath).symm
    exact ⟨by simp [files', hpath], fun _ => hread⟩
  have hagree : ∀ up, Path.Reaches "/p/w" up → Path.Reaches up "/p" →
      files.AgreeAt files' (Path.child up Config.fileName) := by
    intro up habove hbelow
    obtain ⟨inner, outer, hlineage, _⟩ := Path.exists_lineage_eq_append habsolute habove
    have hmem : up ∈ ["/p/w", "/p", "/"] := by
      have hways : Path.lineage "/p/w" = ["/p/w", "/p", "/"] := by decide
      rw [← hways, hlineage]
      simp
    simp only [List.mem_cons, List.not_mem_nil, or_false] at hmem
    rcases hmem with rfl | rfl | rfl
    · exact hsame _ (by decide)
    · exact hsame _ (by decide)
    · -- nothing lies above the root directory
      have hnone : Path.parent? "/" = none := by decide
      rcases hbelow.cases_head with heq | ⟨_, hparent, _⟩
      · exact absurd heq (by decide)
      · cases hnone.symm.trans hparent
  have hmalformed :
      Config.load files' ["/.sift.toml"] = .error (.malformed ⟨"/.sift.toml", "["⟩) :=
    Config.load_eq_error_iff.2 ⟨[], _, [], rfl, by simp, .malformed rfl (by cbv)⟩
  exact ⟨files, files', habsolute, hreaches, hroot, hagree, hmalformed,
    (root_isolates habsolute files files').1 "/p" hreaches hroot hagree "/h" "/"⟩

end FieldQuery
