import FieldQuery.Proofs.RootIsolation

/-!
# The files that are discovered

Configuration files are looked for in a directory and in each one above it, up to the
root directory.  What is listed are the files that lie there, the nearest first, and
nothing behind the first that says it is a root.  Without a root the file in the home
directory comes last, if there is one and it was not met already.  Files that cannot be
read or that say nothing sensible are listed like any other, and are no roots.

**Results.**

* `FileTree.hasFile_read_iff`: a path leads to a file of a file tree;
* `climb_append_of_not_root`: without a root, the way up goes on behind what it met;
* `discover_of_first_root`, `discover_of_no_root`: what is listed with a root and
  without one;
* `discover_exact`: the listing, which holds no file twice and a root at most at its
  end.
-/

namespace FieldQuery

namespace FileTree

variable {tree : FileTree} {place : Place}

/-- A path leads to a file if there are bytes at the place it leads to, text or not. -/
theorem hasFile_read_iff
    {path : String} :
    (tree.read place).hasFile path = true ↔
      ∃ target bytes, tree.locate place path = .ok target ∧ tree.bytes? target = some bytes := by
  unfold read
  dsimp only
  cases tree.locate place path with
  | error cause =>
      simp
  | ok target =>
      simp [Option.isSome_iff_exists]

end FileTree

namespace Config

variable {files : Files} {home directory : String}

section Listing

/-- The configuration files that lie in the given directories. -/
def filesIn (files : Files) (directories : List String) : List String :=
  (directories.map (Path.child · fileName)).filter (files.hasFile ·)

/-- The configuration file in the home directory, if it is there and not listed already. -/
def homeFiles (files : Files) (home : String) (listed : List String) : List String :=
  if files.hasFile (homeFile home) = true ∧
      ∀ path ∈ listed, Path.same path (homeFile home) = false
  then [homeFile home] else []

theorem filesIn_append
    (inner outer : List String) :
    filesIn files (inner ++ outer) = filesIn files inner ++ filesIn files outer := by
  rw [filesIn, List.map_append, List.filter_append]
  rfl

theorem filesIn_cons
    (directory : String) (directories : List String) :
    filesIn files (directory :: directories) =
      filesIn files [directory] ++ filesIn files directories :=
  filesIn_append [directory] directories

theorem filesIn_singleton
    (directory : String) :
    filesIn files [directory] =
      if files.hasFile (Path.child directory fileName) then [Path.child directory fileName]
      else [] := by
  simp only [filesIn, List.map_cons, List.map_nil, List.filter_cons, List.filter_nil]

theorem not_setsRoot_of_mem_filesIn
    {directories : List String} {path : String}
    (hnone : ∀ up ∈ directories, ¬ files.SetsRoot (Path.child up fileName))
    (hmem : path ∈ filesIn files directories) :
    ¬ files.SetsRoot path := by
  obtain ⟨up, hup, rfl⟩ := List.mem_map.1 (List.mem_filter.1 hmem).1
  exact hnone up hup

/-- No two of the files that lie in the directories on the way up are at one path. -/
theorem pairwise_filesIn
    {way : List String} (files : Files) (hascent : Path.Ascent directory way)
    (habsolute : Path.IsAbsolute directory) :
    (filesIn files way).Pairwise fun a b => Path.same a b = false :=
  (List.pairwise_map.2
    (hascent.pairwise_child habsolute (by decide) (by decide))).filter _

/-- The file in the home directory is not behind one at the same path. -/
theorem pairwise_append_homeFiles
    {listed : List String} (hlisted : listed.Pairwise fun a b => Path.same a b = false) :
    (listed ++ homeFiles files home listed).Pairwise fun a b => Path.same a b = false := by
  unfold homeFiles
  split
  next hhome =>
      refine List.pairwise_append.2 ⟨hlisted, List.pairwise_singleton _ _, ?_⟩
      intro path hmem other hother
      rw [List.mem_singleton.1 hother]
      exact hhome.2 path hmem
  next =>
      rwa [List.append_nil]

theorem mem_of_mem_dropLast_append_homeFiles
    {listed : List String} {path : String}
    (hmem : path ∈ (listed ++ homeFiles files home listed).dropLast) :
    path ∈ listed := by
  unfold homeFiles at hmem
  split at hmem
  · rwa [List.dropLast_concat] at hmem
  · rw [List.append_nil] at hmem
    exact List.dropLast_subset _ hmem

end Listing

section Climbing

variable {inner outer way : List String} {root : String}

/-- The way up goes on behind files that are no roots, which it meets all. -/
theorem climb_append_of_not_root
    (outer : List String)
    (hnone : ∀ up ∈ inner, ¬ files.SetsRoot (Path.child up fileName)) :
    climb files (inner ++ outer) =
      (filesIn files inner).map (Found.mk · false) ++ climb files outer := by
  induction inner with
  | nil =>
      rfl
  | cons directory inner ih =>
      have hrest := ih fun up hmem => hnone up (List.mem_cons_of_mem _ hmem)
      rw [filesIn_cons, filesIn_singleton, List.cons_append, climb, hrest]
      cases hfile : files.hasFile (Path.child directory fileName) with
      | false =>
          simp
      | true =>
          have hisRoot : Layer.isRoot files (Path.child directory fileName) = false :=
            Bool.eq_false_iff.2 fun htrue =>
              hnone directory (by simp) (Files.setsRoot_iff.2 ⟨hfile, htrue⟩)
          simp [hisRoot]

/-- Up to the first root, the files that lie on the way are listed. -/
theorem discover_of_first_root
    (home : String) (hlineage : Path.lineage directory = inner ++ root :: outer)
    (hroot : files.SetsRoot (Path.child root fileName))
    (hnone : ∀ up ∈ inner, ¬ files.SetsRoot (Path.child up fileName)) :
    discover files home directory = filesIn files inner ++ [Path.child root fileName] := by
  obtain ⟨hfile, hisRoot⟩ := Files.setsRoot_iff.1 hroot
  have hhere : climb files [root] = [⟨Path.child root fileName, true⟩] := by
    simp only [climb, hfile, hisRoot, if_true]
  rw [discover_of_root hlineage hroot, climb_append_of_not_root _ hnone, hhere]
  simp [Function.comp_def]

/-- Without a root, all files on the way are listed, and then that in the home directory. -/
theorem discover_of_no_root
    (home : String) (hlineage : Path.lineage directory = way)
    (hnone : ∀ up ∈ way, ¬ files.SetsRoot (Path.child up fileName)) :
    discover files home directory =
      filesIn files way ++ homeFiles files home (filesIn files way) := by
  have hclimb : climb files way = (filesIn files way).map (Found.mk · false) := by
    simpa [climb] using climb_append_of_not_root [] hnone
  have hpaths : (climb files way).map Found.path = filesIn files way := by
    simp [hclimb, Function.comp_def]
  have hany : (climb files way).any Found.isRoot = false := by
    simp [hclimb]
  have hmet : (filesIn files way).any (isHomeFile home) = false ↔
      ∀ path ∈ filesIn files way, Path.same path (homeFile home) = false := by
    simp [isHomeFile]
  simp only [discover, hlineage, hpaths, hany, Bool.false_or, homeFiles, ← hmet]
  cases files.hasFile (homeFile home) <;>
    cases (filesIn files way).any (isHomeFile home) <;> simp

end Climbing

/--
**Discovery is exact.**  Going up from an absolute directory ends at the root directory.
If a configuration file on the way says it is a root, then the files that lie on the way
up to the first such file are listed, the nearest first, and nothing else.  If there is
none, all files on the way are listed, and behind them the one in the home directory if
it is there and not listed already.  No file is listed twice, however its path is
written, and none but the last one listed is a root.
-/
theorem discover_exact
    (habsolute : Path.IsAbsolute directory) (files : Files) (home : String) :
    ∃ way top, Path.Ascent directory way ∧ way.getLast? = some top ∧
      Path.steps top = (['/'], []) ∧
      ((∃ inner root outer, way = inner ++ root :: outer ∧
          files.SetsRoot (Path.child root fileName) ∧
          (∀ up ∈ inner, ¬ files.SetsRoot (Path.child up fileName)) ∧
          discover files home directory = filesIn files inner ++ [Path.child root fileName])
        ∨
      ((∀ up ∈ way, ¬ files.SetsRoot (Path.child up fileName)) ∧
          discover files home directory =
            filesIn files way ++ homeFiles files home (filesIn files way)))
        ∧
      (discover files home directory).Pairwise (fun a b => Path.same a b = false) ∧
      ∀ path ∈ (discover files home directory).dropLast, ¬ files.SetsRoot path := by
  have hascent := Path.ascent_lineage habsolute
  have hpairwise := pairwise_filesIn files hascent habsolute
  obtain ⟨top, hlast, hsteps⟩ := hascent.exists_getLast?_eq habsolute
  refine ⟨Path.lineage directory, top, hascent, hlast, hsteps, ?_⟩
  have hdecide : ∀ up,
      (files.hasFile (Path.child up fileName) && Layer.isRoot files (Path.child up fileName)) =
        true ↔ files.SetsRoot (Path.child up fileName) := by
    intro up
    rw [Bool.and_eq_true, Files.setsRoot_iff]
  cases hfirst : (Path.lineage directory).find? fun up =>
      files.hasFile (Path.child up fileName) && Layer.isRoot files (Path.child up fileName) with
  | some root =>
      obtain ⟨hisRoot, inner, outer, hlineage, hinner⟩ := List.find?_eq_some_iff_append.1 hfirst
      have hroot := (hdecide root).1 hisRoot
      have hnone : ∀ up ∈ inner, ¬ files.SetsRoot (Path.child up fileName) := by
        intro up hmem hup
        have hno := hinner up hmem
        rw [(hdecide up).2 hup] at hno
        cases hno
      have hdiscover := discover_of_first_root home hlineage hroot hnone
      refine ⟨.inl ⟨inner, root, outer, hlineage, hroot, hnone, hdiscover⟩, ?_, ?_⟩
      · rw [hlineage, filesIn_append, filesIn_cons, filesIn_singleton, if_pos hroot.hasFile,
          ← List.append_assoc] at hpairwise
        rw [hdiscover]
        exact (List.pairwise_append.1 hpairwise).1
      · rw [hdiscover, List.dropLast_concat]
        exact fun path => not_setsRoot_of_mem_filesIn hnone
  | none =>
      have hnone : ∀ up ∈ Path.lineage directory,
          ¬ files.SetsRoot (Path.child up fileName) :=
        fun up hmem hup => List.find?_eq_none.1 hfirst up hmem ((hdecide up).2 hup)
      have hdiscover := discover_of_no_root home rfl hnone
      refine ⟨.inr ⟨hnone, hdiscover⟩, ?_, ?_⟩
      · rw [hdiscover]
        exact pairwise_append_homeFiles hpairwise
      · rw [hdiscover]
        exact fun path hmem => not_setsRoot_of_mem_filesIn hnone
          (mem_of_mem_dropLast_append_homeFiles hmem)

/--
A malformed file is listed and is no root, a directory is passed over, and the file in
the home directory, met on the way under another path, is not listed again.
-/
theorem discover_exact_home_met :
    ∃ tree : FileTree,
      Path.IsAbsolute "/p/w" ∧
      Layer.read? "[" = none ∧
      tree.read [] "/p/w/.sift.toml" = .ok "[" ∧
      tree.read [] "/p/.sift.toml" = .error .isDirectory ∧
      tree.read [] (homeFile "//") = .ok "" ∧
      discover (tree.read []) "//" "/p/w" = ["/p/w/.sift.toml", "/.sift.toml"] ∧
      Path.same "/p/w/.sift.toml" "/.sift.toml" = false ∧
      ¬ (tree.read []).SetsRoot "/p/w/.sift.toml" := by
  let tree : FileTree :=
    { directories :=
        [["p".toList], ["p".toList, "w".toList], ["p".toList, ".sift.toml".toList]]
      files :=
        [(["p".toList, "w".toList, ".sift.toml".toList], "[".toUTF8),
          ([".sift.toml".toList], "".toUTF8)] }
  have habsolute : Path.IsAbsolute "/p/w" := rfl
  have hmalformed : Layer.read? "[" = none := by cbv
  have hnear : tree.read [] "/p/w/.sift.toml" = .ok "[" := by cbv
  have hdirectory : tree.read [] "/p/.sift.toml" = .error .isDirectory := by cbv
  have htop : tree.read [] "/.sift.toml" = .ok "" := by cbv
  have hhome : tree.read [] (homeFile "//") = .ok "" := by cbv
  have hfiles : (tree.read []).hasFile "/p/w/.sift.toml" = true ∧
      (tree.read []).hasFile "/p/.sift.toml" = false ∧
      (tree.read []).hasFile "/.sift.toml" = true := by
    refine ⟨?_, ?_, ?_⟩ <;> cbv
  have hlisted : discover (tree.read []) "//" "/p/w" = ["/p/w/.sift.toml", "/.sift.toml"] := by
    have hempty : Layer.read? "" = some {} := by cbv
    have hways : Path.lineage "/p/w" = ["/p/w", "/p", "/"] := by decide
    have hmet : isHomeFile "//" "/.sift.toml" = true := by decide
    have hpaths : Path.child "/p/w" fileName = "/p/w/.sift.toml" ∧
        Path.child "/p" fileName = "/p/.sift.toml" ∧
        Path.child "/" fileName = "/.sift.toml" := by decide
    simp [discover, climb, Layer.isRoot, hways, hpaths, hfiles, hnear, htop, hmalformed, hempty,
      hmet]
  obtain ⟨_, _, _, _, _, _, hpairwise, hroots⟩ :=
    discover_exact habsolute (tree.read []) "//"
  rw [hlisted] at hpairwise hroots
  exact ⟨tree, habsolute, hmalformed, hnear, hdirectory, hhome, hlisted,
    (List.pairwise_cons.1 hpairwise).1 _ (by simp), hroots _ (by simp)⟩

end Config

end FieldQuery
