import FieldQuery.Files.Path
import Mathlib.Logic.Relation

/-!
# The directories above a directory

The parents of a path are all found from its text at once.  For an absolute path they
are what going to the nearest parent again and again leads to, in that order, and going
up ends at the root.  Every time a step of the path is lost, so no two of them, and no
two entries of one name in them, come down to the same.

**Results.**

* `pieces_join`: pieces without slashes are the pieces of the text they make;
* `lineage_eq`: a path and its parents are the path, and its nearest parent with its
  parents;
* `ascent_lineage`: the parents are met one after the other on the way up;
* `reaches_of_mem_lineage`, `exists_lineage_eq_append`: the parents are all the
  directories above, and those on the way to one come before it;
* `steps_child`, `Ascent.pairwise_child`: entries of the directories on the way up.
-/

namespace FieldQuery

namespace Path

section Pieces

/-- A slash ends a piece. -/
theorem pieces_append_slash
    (cs ds : List Char) :
    pieces (cs ++ '/' :: ds) = pieces cs ++ pieces ds := by
  fun_induction pieces cs with
  | case1 =>
      rfl
  | case2 cs ih =>
      rw [List.cons_append, pieces, ih, List.cons_append]
  | case3 c cs hc ih =>
      have hlength := length_pieces cs
      rw [List.cons_append, pieces, ih]
      · cases hpieces : pieces cs with
        | nil =>
            simp [hpieces] at hlength
        | cons first rest =>
            rfl
      · exact hc

theorem pieces_of_no_slash
    {piece : List Char} (hpiece : '/' ∉ piece) :
    pieces piece = [piece] := by
  induction piece with
  | nil =>
      rfl
  | cons c piece ih =>
      simp only [List.mem_cons, not_or] at hpiece
      rw [pieces, ih hpiece.2, List.modifyHead_cons]
      exact fun heq => hpiece.1 heq.symm

/-- Pieces without slashes are the pieces of the text they make. -/
theorem pieces_join
    {ps : List (List Char)} (hne : ps ≠ []) (hps : ∀ piece ∈ ps, '/' ∉ piece) :
    pieces (join ps) = ps := by
  induction ps with
  | nil =>
      exact absurd rfl hne
  | cons piece ps ih =>
      have hpiece : '/' ∉ piece := hps piece (by simp)
      cases ps with
      | nil =>
          rw [join, List.intercalate_singleton]
          exact pieces_of_no_slash hpiece
      | cons next ps =>
          rw [join, List.intercalate_cons_cons, List.append_assoc, List.singleton_append,
            pieces_append_slash, pieces_of_no_slash hpiece]
          exact congrArg (piece :: ·)
            (ih (by simp) fun other hmem => hps other (List.mem_cons_of_mem _ hmem))

/-- No piece holds a slash. -/
theorem no_slash_of_mem_pieces
    {cs piece : List Char} (hmem : piece ∈ pieces cs) :
    '/' ∉ piece := by
  fun_induction pieces cs generalizing piece with
  | case1 =>
      simp only [List.mem_singleton] at hmem
      simp [hmem]
  | case2 cs ih =>
      rcases List.mem_cons.1 hmem with rfl | hmem
      · simp
      · exact ih hmem
  | case3 c cs hc ih =>
      cases hpieces : pieces cs with
      | nil =>
          simp [hpieces] at hmem
      | cons first rest =>
          rw [hpieces, List.modifyHead_cons] at hmem
          rcases List.mem_cons.1 hmem with rfl | hmem
          · have hfirst : '/' ∉ first := ih (by simp [hpieces])
            simp only [List.mem_cons, not_or]
            exact ⟨fun heq => hc heq.symm, hfirst⟩
          · exact ih (by simp [hpieces, hmem])

end Pieces

section Absolute

/-- A path from the root. -/
def IsAbsolute (path : String) : Prop :=
  path.toList.head? = some '/'

variable {path : String}

theorem IsAbsolute.exists_toList_eq
    (habsolute : IsAbsolute path) :
    ∃ body, path.toList = '/' :: body := by
  cases hlist : path.toList with
  | nil =>
      simp [IsAbsolute, hlist] at habsolute
  | cons c body =>
      simp only [IsAbsolute, hlist, List.head?_cons, Option.some.injEq] at habsolute
      exact ⟨body, by rw [habsolute]⟩

/-- An absolute path comes down to the pieces behind its slash that lead somewhere. -/
theorem steps_eq_of_toList
    {body : List Char} (hpath : path.toList = '/' :: body) :
    steps path = (['/'], (pieces body).filter (! isIdle ·)) := by
  simp only [steps, hpath, splitStart]

/-- The entry of a directory is one step behind it. -/
theorem steps_child
    {name : String} (habsolute : IsAbsolute path) (hslash : '/' ∉ name.toList)
    (hidle : isIdle name.toList = false) :
    steps (child path name) = (['/'], (steps path).2 ++ [name.toList]) := by
  obtain ⟨body, hpath⟩ := habsolute.exists_toList_eq
  have hname : (pieces name.toList).filter (! isIdle ·) = [name.toList] := by
    simp [pieces_of_no_slash hslash, hidle]
  rw [steps_eq_of_toList hpath]
  rcases List.eq_nil_or_concat body with rfl | ⟨front, c, rfl⟩
  · have hchild : (child path name).toList = '/' :: name.toList := by
      simp [child, hpath]
    rw [steps_eq_of_toList hchild, hname]
    rfl
  · by_cases hc : c = '/'
    · -- the directory ends in a slash, behind which there is an empty piece
      subst hc
      have hchild : (child path name).toList = '/' :: (front ++ '/' :: name.toList) := by
        simp [child, hpath, List.getLast?_cons]
      rw [steps_eq_of_toList hchild, List.concat_eq_append, pieces_append_slash,
        pieces_append_slash, List.filter_append, List.filter_append, hname]
      simp [pieces, isIdle]
    · have hchild :
          (child path name).toList = '/' :: (front.concat c ++ '/' :: name.toList) := by
        simp [child, hpath, hc, List.getLast?_cons]
      rw [steps_eq_of_toList hchild, pieces_append_slash, List.filter_append, hname]

end Absolute

section Upward

theorem filter_dropWhile_isIdle
    (ps : List (List Char)) :
    (ps.dropWhile isIdle).filter (! isIdle ·) = ps.filter (! isIdle ·) := by
  induction ps with
  | nil =>
      rfl
  | cons piece ps ih =>
      cases hidle : isIdle piece <;> simp [hidle, ih]

/-- The directories that going up from a directory leads to, itself included. -/
def Reaches : String → String → Prop :=
  Relation.ReflTransGen fun directory up => parent? directory = some up

/-- The directories met when going up from a directory to one without a parent. -/
inductive Ascent : String → List String → Prop where
  | top {directory : String} :
      parent? directory = none → Ascent directory [directory]
  | step {directory up : String} {way : List String} :
      parent? directory = some up → Ascent up way → Ascent directory (directory :: way)

/-- The path from the root along the given pieces, the last piece first. -/
def fromRoot (reversed : List (List Char)) : String :=
  String.ofList ('/' :: join reversed.reverse)

theorem pieces_join_reverse
    {reversed : List (List Char)} (hne : reversed ≠ [])
    (hslash : ∀ piece ∈ reversed, '/' ∉ piece) :
    pieces (join reversed.reverse) = reversed.reverse :=
  pieces_join (by simpa using hne) fun piece hmem => hslash piece (List.mem_reverse.1 hmem)

/-- The parents of a path that ends in a piece which leads somewhere. -/
theorem parents_fromRoot
    {piece : List Char} {before : List (List Char)} (hidle : isIdle piece = false)
    (hslash : ∀ other ∈ piece :: before, '/' ∉ other) :
    parents (fromRoot (piece :: before)) = (pathsTo ['/'] before).map String.ofList := by
  have hpieces := pieces_join_reverse (by simp) hslash
  simp only [parents, fromRoot, String.toList_ofList, splitStart, hpieces, List.reverse_reverse,
    List.dropWhile_cons, hidle, Bool.false_eq_true, if_false]

/-- The paths that end in some of the pieces are one of them and its parents. -/
theorem exists_map_pathsTo_eq_lineage
    {before : List (List Char)} (hslash : ∀ piece ∈ before, '/' ∉ piece) :
    ∃ up, IsAbsolute up ∧ (pathsTo ['/'] before).map String.ofList = lineage up ∧
      steps up = (['/'], before.reverse.filter (! isIdle ·)) := by
  induction before with
  | nil =>
      exact ⟨"/", rfl, by decide, by decide⟩
  | cons piece before ih =>
      rw [pathsTo]
      cases hidle : isIdle piece with
      | true =>
          obtain ⟨up, hup, hlineage, hsteps⟩ :=
            ih fun other hmem => hslash other (List.mem_cons_of_mem _ hmem)
          exact ⟨up, hup, hlineage, by simpa [hidle] using hsteps⟩
      | false =>
          refine ⟨fromRoot (piece :: before), by simp [IsAbsolute, fromRoot], ?_, ?_⟩
          · rw [lineage, parents_fromRoot hidle hslash]
            rfl
          · rw [steps_eq_of_toList (by rw [fromRoot, String.toList_ofList]),
              pieces_join_reverse (by simp) hslash]

/--
An absolute path comes down to nothing and has no parent, or has a nearest parent, which
is a step short of it and whose parents are its other ones.
-/
theorem lineage_eq
    {path : String} (habsolute : IsAbsolute path) :
    (parent? path = none ∧ lineage path = [path] ∧ steps path = (['/'], [])) ∨
      ∃ up, parent? path = some up ∧ IsAbsolute up ∧ lineage path = path :: lineage up ∧
        ∃ piece, steps path = (['/'], (steps up).2 ++ [piece]) := by
  obtain ⟨body, hbody⟩ := habsolute.exists_toList_eq
  have hsteps : steps path =
      (['/'], (((pieces body).reverse.dropWhile isIdle).filter (! isIdle ·)).reverse) := by
    rw [steps_eq_of_toList hbody, filter_dropWhile_isIdle, List.filter_reverse,
      List.reverse_reverse]
  cases hends : (pieces body).reverse.dropWhile isIdle with
  | nil =>
      have hparents : parents path = [] := by
        simp [parents, hbody, splitStart, hends]
      refine .inl ⟨by rw [parent?, hparents]; rfl, by rw [lineage, hparents], ?_⟩
      rw [hsteps, hends]
      rfl
  | cons piece before =>
      have hparents : parents path = (pathsTo ['/'] before).map String.ofList := by
        simp only [parents, hbody, splitStart, hends]
      have hidle : isIdle piece = false := by
        simpa [hends] using List.head_dropWhile_not (p := isIdle) (l := (pieces body).reverse)
          (by simp [hends])
      have hslash : ∀ other ∈ before, '/' ∉ other := by
        intro other hmem
        have hsuffix := (List.dropWhile_suffix isIdle).subset
          (hends ▸ List.mem_cons_of_mem piece hmem)
        exact no_slash_of_mem_pieces (List.mem_reverse.1 hsuffix)
      obtain ⟨up, hup, hlineage, hsteps_up⟩ := exists_map_pathsTo_eq_lineage hslash
      have hup_parents : parents path = lineage up := hparents.trans hlineage
      refine .inr ⟨up, by rw [parent?, hup_parents]; rfl, hup, by rw [lineage, hup_parents],
        piece, ?_⟩
      rw [hsteps, hends, hsteps_up]
      simp [hidle]

/-- The nearest parent of an absolute path is absolute and a step short of it. -/
theorem IsAbsolute.of_parent?_eq_some
    {path up : String} (habsolute : IsAbsolute path) (hparent : parent? path = some up) :
    IsAbsolute up ∧ ∃ piece, steps path = (['/'], (steps up).2 ++ [piece]) := by
  rcases lineage_eq habsolute with ⟨hnone, _⟩ | ⟨up', hparent', hup, _, hsteps⟩
  · cases hparent.symm.trans hnone
  · obtain rfl := Option.some.inj (hparent.symm.trans hparent')
    exact ⟨hup, hsteps⟩

/-- A path and its parents are met on the way up from the path. -/
theorem ascent_lineage
    {path : String} (habsolute : IsAbsolute path) :
    Ascent path (lineage path) := by
  induction hlength : (lineage path).length generalizing path with
  | zero =>
      simp [lineage] at hlength
  | succ n ih =>
      rcases lineage_eq habsolute with ⟨hnone, hlineage, _⟩ | ⟨up, hparent, hup, hlineage, _⟩
      · rw [hlineage]
        exact .top hnone
      · rw [hlineage] at hlength ⊢
        exact .step hparent (ih hup (by simpa using hlength))

theorem Ascent.reaches_of_mem
    {path directory : String} {way : List String} (hascent : Ascent path way)
    (hmem : directory ∈ way) :
    Reaches path directory := by
  induction hascent with
  | top _ =>
      obtain rfl := List.mem_singleton.1 hmem
      exact .refl
  | step hparent _ ih =>
      rcases List.mem_cons.1 hmem with rfl | hmem
      · exact .refl
      · exact .head hparent (ih hmem)

/-- The parents of an absolute path are directories that going up leads to. -/
theorem reaches_of_mem_lineage
    {path directory : String} (habsolute : IsAbsolute path) (hmem : directory ∈ lineage path) :
    Reaches path directory :=
  (ascent_lineage habsolute).reaches_of_mem hmem

/-- A directory that going up leads to comes behind those on the way to it. -/
theorem exists_lineage_eq_append
    {path root : String} (habsolute : IsAbsolute path) (hreaches : Reaches path root) :
    ∃ inner outer, lineage path = inner ++ root :: outer ∧
      ∀ directory ∈ inner, Reaches path directory ∧ Reaches directory root := by
  induction hreaches using Relation.ReflTransGen.head_induction_on with
  | refl =>
      exact ⟨[], parents root, rfl, by simp⟩
  | @head path up hstep hrest ih =>
      rcases lineage_eq habsolute with ⟨hnone, _⟩ | ⟨up', hparent, hup, hlineage, _⟩
      · cases hstep.symm.trans hnone
      · obtain rfl := Option.some.inj (hstep.symm.trans hparent)
        obtain ⟨inner, outer, hrest_eq, hinner⟩ := ih hup
        refine ⟨path :: inner, outer, by rw [hlineage, hrest_eq]; rfl, fun directory hmem => ?_⟩
        rcases List.mem_cons.1 hmem with rfl | hmem
        · exact ⟨.refl, .head hstep hrest⟩
        · exact ⟨.head hstep (hinner directory hmem).1, (hinner directory hmem).2⟩

section Strict

variable {path : String} {way : List String}

/-- The way up from an absolute path ends at the root directory. -/
theorem Ascent.exists_getLast?_eq
    (hascent : Ascent path way) (habsolute : IsAbsolute path) :
    ∃ top, way.getLast? = some top ∧ steps top = (['/'], []) := by
  induction hascent with
  | @top path hnone =>
      rcases lineage_eq habsolute with ⟨_, _, hsteps⟩ | ⟨up, hparent, _⟩
      · exact ⟨path, rfl, hsteps⟩
      · cases hnone.symm.trans hparent
  | @step path up way hparent _ ih =>
      obtain ⟨top, hlast, hsteps⟩ := ih (habsolute.of_parent?_eq_some hparent).1
      exact ⟨top, by simp [List.getLast?_cons, hlast], hsteps⟩

/-- Every directory on the way up is absolute and takes no more steps than the first. -/
theorem Ascent.steps_le
    (hascent : Ascent path way) (habsolute : IsAbsolute path) :
    ∀ directory ∈ way,
      IsAbsolute directory ∧ (steps directory).2.length ≤ (steps path).2.length := by
  induction hascent with
  | top _ =>
      intro directory hmem
      obtain rfl := List.mem_singleton.1 hmem
      exact ⟨habsolute, Nat.le_refl _⟩
  | @step path up way hparent _ ih =>
      obtain ⟨hup, piece, hsteps⟩ := habsolute.of_parent?_eq_some hparent
      intro directory hmem
      rcases List.mem_cons.1 hmem with rfl | hmem
      · exact ⟨habsolute, Nat.le_refl _⟩
      · obtain ⟨hdirectory, hle⟩ := ih hup directory hmem
        refine ⟨hdirectory, Nat.le_trans hle ?_⟩
        simp [hsteps]

/-- Entries of one name in the directories on the way up are never at one path. -/
theorem Ascent.pairwise_child
    {name : String} (hascent : Ascent path way) (habsolute : IsAbsolute path)
    (hslash : '/' ∉ name.toList) (hidle : isIdle name.toList = false) :
    way.Pairwise fun below up => same (child below name) (child up name) = false := by
  induction hascent with
  | top _ =>
      exact List.pairwise_singleton _ _
  | @step path up way hparent hrest ih =>
      obtain ⟨hup, piece, hsteps⟩ := habsolute.of_parent?_eq_some hparent
      refine List.pairwise_cons.2 ⟨fun directory hmem => ?_, ih hup⟩
      -- a step is lost on the way to the parent, and none is won above it
      obtain ⟨hdirectory, hle⟩ := hrest.steps_le hup directory hmem
      have hlt : (steps directory).2.length < (steps path).2.length := by
        simpa [hsteps] using Nat.lt_succ_of_le hle
      rw [same, steps_child habsolute hslash hidle, steps_child hdirectory hslash hidle]
      refine decide_eq_false fun heq => ?_
      have hlength : (steps path).2 = (steps directory).2 :=
        (List.append_left_inj _).1 (Prod.mk.inj heq).2
      rw [hlength] at hlt
      exact Nat.lt_irrefl _ hlt

end Strict

end Upward

end Path

end FieldQuery
