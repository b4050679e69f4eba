import FieldQuery.Proofs.CompiledAtoms
import FieldQuery.Proofs.CompileFailures
import FieldQuery.Proofs.KeptConditions

/-!
# The form of compiled predicates

A backend may rely on the form of what it is given.  Connectives in a compiled predicate
join at least two children: an expression that compiles has no node without children and
no group without members, a field has at least one path, and wherever a single child
would be left it stands for itself.  Merging ranges keeps this, since a scan leaves at
least one of its children.

All that atoms test comes from the expression.  Before ranges are merged every atom is
built from a path of a field name, from a literal in a value position, or from both; and
merging neither loses nor invents a condition.

**Results.**

* `Branching.all`, `Branching.any`, `branching_mergeRanges`: connectives have two children;
* `Test.builtFrom_of_mem_atoms`: what an atom is built from;
* `Kept.exists_value`, `Kept.exists_text`: where values and texts come from after merging;
* `compile_wellFormed`: the form of whatever an expression compiles to.
-/

namespace FieldQuery

namespace Predicate

section Nodes

variable {p : Predicate} {ps : List Predicate}

/-- Every connective that a predicate is made of has at least two children. -/
def Branching (p : Predicate) : Prop :=
  ∀ children, .and children ∈ p.parts ∨ .or children ∈ p.parts → 2 ≤ children.length

theorem Branching.atom
    (a : Atom) :
    Branching (.atom a) := by
  simp [Branching, parts]

theorem branching_not_iff :
    Branching (.not p) ↔ Branching p := by
  simp [Branching, parts]

/-- A connective branches if it has two children or more, and these branch. -/
theorem branching_iff
    (hp : p = .and ps ∨ p = .or ps) :
    Branching p ↔ 2 ≤ ps.length ∧ ∀ q ∈ ps, Branching q := by
  have hparts : p.parts = p :: partsOf ps := by
    rcases hp with rfl | rfl <;> rfl
  unfold Branching
  rw [hparts]
  constructor
  · intro hbranching
    refine ⟨hbranching ps ?_, fun q hq children hmem => hbranching children ?_⟩
    · exact hp.imp (fun h => by simp [h]) fun h => by simp [h]
    · have hsub : q.parts ⊆ p :: partsOf ps :=
        List.Subset.trans (parts_subset_partsOf hq) (List.subset_cons_self _ _)
      exact hmem.imp (@hsub _) (@hsub _)
  · rintro ⟨hlength, hps⟩ children hmem
    simp only [List.mem_cons, mem_partsOf_iff] at hmem
    rcases hmem with (heq | ⟨q, hq, hmem⟩) | heq | ⟨q, hq, hmem⟩
    · rcases hp with rfl | rfl <;> cases heq
      exact hlength
    · exact hps q hq children (Or.inl hmem)
    · rcases hp with rfl | rfl <;> cases heq
      exact hlength
    · exact hps q hq children (Or.inr hmem)

theorem Branching.of_length_ne_one
    (hp : p = .and ps ∨ p = .or ps) (hlength : ps.length ≠ 1)
    (hne : ps ≠ []) (hps : ∀ q ∈ ps, Branching q) :
    Branching p := by
  have hpos := List.length_pos_iff.2 hne
  exact (branching_iff hp).2 ⟨by omega, hps⟩

/-- A single child stands for itself, so that what is left has two children or more. -/
theorem Branching.all
    (hne : ps ≠ []) (hps : ∀ p ∈ ps, Branching p) :
    Branching (all ps) := by
  by_cases hlength : ps.length = 1
  · obtain ⟨p, rfl⟩ := List.length_eq_one_iff.1 hlength
    exact hps p (by simp)
  · rw [all_of_length_ne_one hlength]
    exact .of_length_ne_one (Or.inl rfl) hlength hne hps

theorem Branching.any
    (hne : ps ≠ []) (hps : ∀ p ∈ ps, Branching p) :
    Branching (any ps) := by
  by_cases hlength : ps.length = 1
  · obtain ⟨p, rfl⟩ := List.length_eq_one_iff.1 hlength
    exact hps p (by simp)
  · rw [any_of_length_ne_one hlength]
    exact .of_length_ne_one (Or.inr rfl) hlength hne hps

theorem Branching.combine
    (connective : Connective) (hne : ps ≠ []) (hps : ∀ p ∈ ps, Branching p) :
    Branching (connective.combine ps) := by
  cases connective with
  | and =>
      exact .all hne hps
  | or =>
      exact .any hne hps
  | not =>
      exact branching_not_iff.2 (.any hne hps)

theorem addChild_ne_nil
    (earlier : List Predicate) (c : Predicate) :
    addChild earlier c ≠ [] := by
  unfold addChild
  split
  · split
    · rename_i hmove
      obtain ⟨before, _, _, after, _, _, _, rfl⟩ := exists_of_moveInto? hmove
      simp
    · simp
  · simp

/-- A scan leaves at least one of several children. -/
theorem joinRanges_ne_nil
    (hne : ps ≠ []) :
    joinRanges ps ≠ [] := by
  induction ps using List.reverseRecOn with
  | nil =>
      exact absurd rfl hne
  | append_singleton ps c _ =>
      rw [joinRanges, List.foldl_append]
      exact addChild_ne_nil _ c

theorem mergeRangesOf_ne_nil
    (hne : ps ≠ []) :
    mergeRangesOf ps ≠ [] := by
  cases ps with
  | nil =>
      exact absurd rfl hne
  | cons p ps =>
      simp [mergeRangesOf]

mutual

/-- Merging leaves connectives with at least two children. -/
theorem branching_mergeRanges
    {p : Predicate} (hp : Branching p) :
    Branching p.mergeRanges := by
  cases p with
  | atom a =>
      exact .atom a
  | and children =>
      obtain ⟨hlength, hchildren⟩ := (branching_iff (Or.inl rfl)).1 hp
      have hne : children ≠ [] := List.length_pos_iff.1 (by omega)
      rw [mergeRanges]
      refine .all (joinRanges_ne_nil (mergeRangesOf_ne_nil hne)) fun q hq => ?_
      rcases mem_joinRanges hq with hq | ⟨a, rfl⟩
      · exact branching_mergeRangesOf hchildren q hq
      · exact .atom a
  | or children =>
      obtain ⟨hlength, hchildren⟩ := (branching_iff (Or.inr rfl)).1 hp
      have hne : children ≠ [] := List.length_pos_iff.1 (by omega)
      rw [mergeRanges]
      exact .any (mergeRangesOf_ne_nil hne) (branching_mergeRangesOf hchildren)
  | not child =>
      rw [mergeRanges]
      exact branching_not_iff.2 (branching_mergeRanges (branching_not_iff.1 hp))

theorem branching_mergeRangesOf
    {ps : List Predicate} (hps : ∀ p ∈ ps, Branching p) :
    ∀ q ∈ mergeRangesOf ps, Branching q := by
  cases ps with
  | nil =>
      simp [mergeRangesOf]
  | cons p ps =>
      rw [List.forall_mem_cons] at hps
      rw [mergeRangesOf, List.forall_mem_cons]
      exact ⟨branching_mergeRanges hps.1, branching_mergeRangesOf hps.2⟩

end

end Nodes

end Predicate

section Compiling

open Predicate (Branching)

/-- The paths of a field, which are not none, branch as alternatives. -/
theorem Aliases.branching_spread
    (aliases : Aliases) (build : String → Atom) :
    Branching (aliases.spread build) := by
  refine .any (by simpa using aliases.nonempty) fun p hp => ?_
  obtain ⟨path, _, rfl⟩ := List.mem_map.1 hp
  exact .atom _

theorem Presence.branching_test
    (presence : Presence) {p : Predicate} (hp : Branching p) :
    Branching (presence.test p) := by
  cases presence with
  | present =>
      exact hp
  | missing =>
      exact Predicate.branching_not_iff.2 hp

namespace Operand

variable {leaf : Literal → Except CompileError Predicate}

mutual

/-- If each literal gives a predicate that branches, an operand without gaps gives one. -/
theorem branching_spread
    (hleaf : ∀ l q, leaf l = .ok q → Branching q)
    {x : Operand} (hgap : x.gap? = none) {p : Predicate} (hspread : spread leaf x = .ok p) :
    Branching p := by
  cases x with
  | literal l =>
      exact hleaf l p hspread
  | group connective members =>
      obtain ⟨ps, hps, rfl⟩ := spread_group_eq_ok.1 hspread
      cases members with
      | nil =>
          cases hgap
      | cons x xs =>
          obtain ⟨q, qs, _, _, rfl⟩ := spreadAll_cons_eq_ok.1 hps
          rw [gap?_group connective (List.cons_ne_nil x xs)] at hgap
          exact .combine connective (by simp) (branching_spreadAll hleaf hgap hps)

theorem branching_spreadAll
    (hleaf : ∀ l q, leaf l = .ok q → Branching q)
    {xs : List Operand} (hgap : gapIn? xs = none) {ps : List Predicate}
    (hspread : spreadAll leaf xs = .ok ps) :
    ∀ p ∈ ps, Branching p := by
  cases xs with
  | nil =>
      cases hspread
      simp
  | cons x xs =>
      obtain ⟨q, qs, hq, hqs, rfl⟩ := spreadAll_cons_eq_ok.1 hspread
      obtain ⟨hx, hxs⟩ := Option.or_eq_none_iff.1 hgap
      rw [List.forall_mem_cons]
      exact ⟨branching_spread hleaf hx hq, branching_spreadAll hleaf hxs hqs⟩

end

end Operand

namespace Expr

variable {resolver : Resolver} {policy : UnknownFields}

mutual

/-- An expression without gaps gives a predicate that branches. -/
theorem branching_toPredicate
    {e : Expr} (hgap : e.gap? = none) {p : Predicate}
    (hp : toPredicate resolver policy e = .ok p) :
    Branching p := by
  cases e with
  | junction j children =>
      obtain ⟨ps, hps, rfl⟩ := toPredicate_junction_eq_ok.1 hp
      cases children with
      | nil =>
          cases hgap
      | cons e es =>
          obtain ⟨q, qs, _, _, rfl⟩ := toPredicates_cons_eq_ok.1 hps
          rw [gap?_junction j (List.cons_ne_nil e es)] at hgap
          exact .combine j.connective (by simp) (branching_toPredicates hgap hps)
  | not child =>
      obtain ⟨q, hq, rfl⟩ := toPredicate_not_eq_ok.1 hp
      rw [gap?] at hgap
      exact Predicate.branching_not_iff.2 (branching_toPredicate hgap hq)
  | presence presence field =>
      rw [toPredicate] at hp
      refine Operand.branching_spread ?_ hgap hp
      intro name q hq
      obtain ⟨aliases, _, hq⟩ := exists_of_resolved hq
      cases hq
      exact presence.branching_test (aliases.branching_spread _)
  | search mode value =>
      rw [toPredicate] at hp
      refine Operand.branching_spread ?_ hgap hp
      intro l q hq
      cases hq
      exact .atom _
  | compare c field value =>
      rw [toPredicate] at hp
      obtain ⟨hfield, hvalue⟩ := Option.or_eq_none_iff.1 hgap
      refine Operand.branching_spread ?_ hfield hp
      intro name q hq
      obtain ⟨aliases, _, hq⟩ := exists_of_resolved hq
      refine Operand.branching_spread ?_ hvalue hq
      intro l r hr
      cases hr
      exact aliases.branching_spread _

theorem branching_toPredicates
    {es : List Expr} (hgap : gapIn? es = none) {ps : List Predicate}
    (hps : toPredicates resolver policy es = .ok ps) :
    ∀ p ∈ ps, Branching p := by
  cases es with
  | nil =>
      cases hps
      simp
  | cons e es =>
      obtain ⟨q, qs, hq, hqs, rfl⟩ := toPredicates_cons_eq_ok.1 hps
      obtain ⟨he, hes⟩ := Option.or_eq_none_iff.1 hgap
      rw [List.forall_mem_cons]
      exact ⟨branching_toPredicate he hq, branching_toPredicates hes hqs⟩

end

end Expr

end Compiling

namespace Atom

/-- The values that an atom compares with. -/
def values : Atom → List Value
  | equals _ value => [value]
  | range _ lower upper => (lower.toList ++ upper.toList).map Bound.value
  | _ => []

/-- The text that an atom looks for. -/
def text? : Atom → Option String
  | pattern _ _ text | freeText text _ => some text
  | _ => none

end Atom

section Sources

namespace Test

/-- The names in the field position of a test. -/
def fieldNames : Test → List String
  | presence _ field | compare _ field _ => field.literals.map Literal.raw
  | search _ _ => []

/-- The literals in the value position of a test. -/
def valueLiterals : Test → List Literal
  | presence _ _ => []
  | search _ value | compare _ _ value => value.literals

end Test

namespace Expr

/-- The literals in value positions from left to right. -/
def valueLiterals (e : Expr) : List Literal :=
  e.tests.flatMap Test.valueLiterals

mutual

/-- The field names of an expression are those of its tests. -/
theorem fieldNames_eq_flatMap
    (e : Expr) :
    e.fieldNames = e.tests.flatMap Test.fieldNames := by
  cases e with
  | junction j children =>
      rw [fieldNames, tests, fieldNamesOf_eq_flatMap children]
  | not child =>
      rw [fieldNames, tests, fieldNames_eq_flatMap child]
  | _ =>
      simp [fieldNames, tests, Test.fieldNames]

theorem fieldNamesOf_eq_flatMap
    (es : List Expr) :
    fieldNamesOf es = (testsOf es).flatMap Test.fieldNames := by
  cases es with
  | nil =>
      rfl
  | cons e es =>
      rw [fieldNamesOf, testsOf, List.flatMap_append, fieldNames_eq_flatMap e,
        fieldNamesOf_eq_flatMap es]

end

end Expr

/-- An atom that is built from a path of one of some names, from one of some literals, or both. -/
inductive BuiltFrom
    (paths : String → List String) (names : List String) (literals : List Literal) :
    Atom → Prop
  | present
      {name path : String}
      (hname : name ∈ names) (hpath : path ∈ paths name) :
      BuiltFrom paths names literals (.present path)
  | freeText
      {l : Literal}
      (mode : SearchMode) (hl : l ∈ literals) :
      BuiltFrom paths names literals (.freeText l.raw mode)
  | equals
      {name path : String} {l : Literal}
      (hname : name ∈ names) (hpath : path ∈ paths name) (hl : l ∈ literals) :
      BuiltFrom paths names literals (.equals path l.value)
  | pattern
      {name path : String} {l : Literal}
      (kind : PatternKind)
      (hname : name ∈ names) (hpath : path ∈ paths name) (hl : l ∈ literals) :
      BuiltFrom paths names literals (.pattern path kind l.raw)
  | lower
      {name path : String} {l : Literal}
      (inclusive : Bool)
      (hname : name ∈ names) (hpath : path ∈ paths name) (hl : l ∈ literals) :
      BuiltFrom paths names literals (.range path (some ⟨l.value, inclusive⟩) none)
  | upper
      {name path : String} {l : Literal}
      (inclusive : Bool)
      (hname : name ∈ names) (hpath : path ∈ paths name) (hl : l ∈ literals) :
      BuiltFrom paths names literals (.range path none (some ⟨l.value, inclusive⟩))

/-- The atoms of a test are built from its own names and literals. -/
theorem Test.builtFrom_of_mem_atoms
    {paths : String → List String} {t : Test} {a : Atom} (ha : a ∈ t.atoms paths) :
    BuiltFrom paths t.fieldNames t.valueLiterals a := by
  cases t with
  | presence p field =>
      obtain ⟨name, hname, ha⟩ := List.mem_flatMap.1 ha
      obtain ⟨path, hpath, rfl⟩ := List.mem_map.1 ha
      exact .present (List.mem_map_of_mem hname) hpath
  | search mode value =>
      obtain ⟨l, hl, rfl⟩ := List.mem_map.1 ha
      exact .freeText mode hl
  | compare c field value =>
      obtain ⟨name, hname, ha⟩ := List.mem_flatMap.1 ha
      obtain ⟨l, hl, ha⟩ := List.mem_flatMap.1 ha
      obtain ⟨path, hpath, rfl⟩ := List.mem_map.1 ha
      have hraw := List.mem_map_of_mem (f := Literal.raw) hname
      cases c with
      | equals =>
          exact .equals hraw hpath hl
      | pattern kind =>
          exact .pattern kind hraw hpath hl
      | bound side inclusive =>
          cases side with
          | lower =>
              exact .lower inclusive hraw hpath hl
          | upper =>
              exact .upper inclusive hraw hpath hl

namespace BuiltFrom

variable {paths : String → List String} {names names' : List String}
variable {literals literals' : List Literal} {a : Atom}

theorem mono
    (h : BuiltFrom paths names literals a)
    (hnames : names ⊆ names') (hliterals : literals ⊆ literals') :
    BuiltFrom paths names' literals' a := by
  cases h with
  | present hname hpath =>
      exact .present (hnames hname) hpath
  | freeText mode hl =>
      exact .freeText mode (hliterals hl)
  | equals hname hpath hl =>
      exact .equals (hnames hname) hpath (hliterals hl)
  | pattern kind hname hpath hl =>
      exact .pattern kind (hnames hname) hpath (hliterals hl)
  | lower inclusive hname hpath hl =>
      exact .lower inclusive (hnames hname) hpath (hliterals hl)
  | upper inclusive hname hpath hl =>
      exact .upper inclusive (hnames hname) hpath (hliterals hl)

theorem exists_path
    (h : BuiltFrom paths names literals a) {path : String} (hpath : a.field? = some path) :
    ∃ name ∈ names, path ∈ paths name := by
  cases h with
  | freeText mode hl =>
      cases hpath
  | present hname hmem | equals hname hmem hl | pattern kind hname hmem hl
  | lower inclusive hname hmem hl | upper inclusive hname hmem hl =>
      obtain rfl := Option.some.inj hpath
      exact ⟨_, hname, hmem⟩

theorem exists_value
    (h : BuiltFrom paths names literals a) {value : Value} (hvalue : value ∈ a.values) :
    ∃ l ∈ literals, l.value = value := by
  cases h with
  | present hname hmem | freeText mode hl | pattern kind hname hmem hl =>
      simp [Atom.values] at hvalue
  | equals hname hmem hl | lower inclusive hname hmem hl | upper inclusive hname hmem hl =>
      exact ⟨_, hl, (List.mem_singleton.1 hvalue).symm⟩

theorem exists_text
    (h : BuiltFrom paths names literals a) {text : String} (htext : a.text? = some text) :
    ∃ l ∈ literals, l.raw = text := by
  cases h with
  | present hname hmem | equals hname hmem hl | lower inclusive hname hmem hl
  | upper inclusive hname hmem hl =>
      cases htext
  | freeText mode hl | pattern kind hname hmem hl =>
      exact ⟨_, hl, Option.some.inj htext⟩

/-- A range that is built from a literal is bound on one side. -/
theorem isSome_eq_not_isSome
    {field : String} {lower upper : Option Bound}
    (h : BuiltFrom paths names literals (.range field lower upper)) :
    lower.isSome = !upper.isSome := by
  cases h <;> rfl

end BuiltFrom

/-- The atoms of an expression are built from its own names and literals. -/
theorem Expr.builtFrom_of_mem_atoms
    {resolver : Resolver} {policy : UnknownFields} {e : Expr} {p : Predicate}
    (hp : toPredicate resolver policy e = .ok p) {a : Atom} (ha : a ∈ p.atoms) :
    BuiltFrom resolver.paths e.fieldNames e.valueLiterals a := by
  rw [atoms_toPredicate e hp] at ha
  obtain ⟨t, ht, ha⟩ := List.mem_flatMap.1 ha
  refine (Test.builtFrom_of_mem_atoms ha).mono ?_ ?_
  · rw [fieldNames_eq_flatMap]
    exact fun name hname => List.mem_flatMap.2 ⟨t, ht, hname⟩
  · exact fun l hl => List.mem_flatMap.2 ⟨t, ht, hl⟩

/-- The paths of a name are those that the resolver gives, or the name itself. -/
theorem Resolver.mem_paths_iff
    {resolver : Resolver} {name path : String} :
    path ∈ resolver.paths name ↔
      (∃ aliases, resolver name = some aliases ∧ path ∈ aliases.paths) ∨
        (resolver name = none ∧ path = name) := by
  unfold Resolver.paths
  cases resolver name <;> simp

namespace Atom

variable {a : Atom} {value : Value}

/-- The values of a range are those of its ends. -/
theorem exists_mem_ends
    (hrange : a.isRange = true) (hvalue : value ∈ a.values) :
    ∃ e ∈ a.ends, e.2.2.value = value := by
  cases a with
  | range field lower upper =>
      simp only [values, List.mem_map, List.mem_append] at hvalue
      obtain ⟨b, hb | hb, rfl⟩ := hvalue
      · exact ⟨(field, .lower, b), by simp [ends, Option.mem_toList.1 hb], rfl⟩
      · exact ⟨(field, .upper, b), by simp [ends, Option.mem_toList.1 hb], rfl⟩
  | _ =>
      cases hrange

theorem value_mem_values
    {e : String × Side × Bound} (he : e ∈ a.ends) :
    e.2.2.value ∈ a.values := by
  cases a with
  | range field lower upper =>
      simp only [ends, List.mem_append, List.mem_map] at he
      rcases he with ⟨b, hb, rfl⟩ | ⟨b, hb, rfl⟩
      · exact List.mem_map_of_mem (List.mem_append.2 (Or.inl hb))
      · exact List.mem_map_of_mem (List.mem_append.2 (Or.inr hb))
  | _ =>
      simp [ends] at he

end Atom

namespace Kept

variable {as bs : List Atom} {b : Atom}

theorem mem_of_not_isRange
    (h : Kept as bs) (hb : b ∈ bs) (hrange : b.isRange = false) :
    b ∈ as := by
  have hchosen : b ∈ bs.filter (! ·.isRange) :=
    List.mem_filter.2 ⟨hb, by simp [hrange]⟩
  rw [h.others] at hchosen
  exact (List.mem_filter.1 hchosen).1

/-- A value that is compared with was compared with before. -/
theorem exists_value
    (h : Kept as bs) (hb : b ∈ bs) {value : Value} (hvalue : value ∈ b.values) :
    ∃ a ∈ as, value ∈ a.values := by
  cases hrange : b.isRange with
  | true =>
      obtain ⟨e, he, rfl⟩ := Atom.exists_mem_ends hrange hvalue
      have hends : e ∈ as.flatMap Atom.ends :=
        h.ends.mem_iff.1 (List.mem_flatMap.2 ⟨b, hb, he⟩)
      obtain ⟨a, ha, he⟩ := List.mem_flatMap.1 hends
      exact ⟨a, ha, Atom.value_mem_values he⟩
  | false =>
      exact ⟨b, h.mem_of_not_isRange hb hrange, hvalue⟩

/-- A text that is looked for was looked for before. -/
theorem exists_text
    (h : Kept as bs) (hb : b ∈ bs) {text : String} (htext : b.text? = some text) :
    ∃ a ∈ as, a.text? = some text := by
  cases hrange : b.isRange with
  | true =>
      cases b <;> cases hrange
      cases htext
  | false =>
      exact ⟨b, h.mem_of_not_isRange hb hrange, htext⟩

end Kept

end Sources

section Form

variable {options : CompileOptions} {resolver : Resolver} {e : Expr} {p : Predicate}

/-- The form of a predicate that an expression is compiled to. -/
structure Predicate.WellFormed
    (options : CompileOptions) (resolver : Resolver) (e : Expr) (p : Predicate) : Prop where
  /-- Every conjunction has at least two children. -/
  and_length : ∀ children, .and children ∈ p.parts → 2 ≤ children.length
  /-- Every disjunction has at least two children. -/
  or_length : ∀ children, .or children ∈ p.parts → 2 ≤ children.length
  /-- Every range has a bound. -/
  bounded : ∀ field lower upper, .range field lower upper ∈ p.atoms →
    lower.isSome = true ∨ upper.isSome = true
  /-- Where ranges are not merged, none has two. -/
  unmerged : options.mergeRanges = false →
    ∀ field lower upper, .range field lower upper ∈ p.atoms →
      ¬ (lower.isSome = true ∧ upper.isSome = true)
  /--
  Every path is one that the resolver gives for a field name of the expression, or such a
  name itself that the resolver does not know and that is let through.
  -/
  path : ∀ a ∈ p.atoms, ∀ path, a.field? = some path →
    ∃ name ∈ e.fieldNames,
      (∃ aliases, resolver name = some aliases ∧ path ∈ aliases.paths) ∨
        (options.unknownFields = .passThrough ∧ resolver name = none ∧ path = name)
  /-- Every value is that of a literal in a value position. -/
  value : ∀ a ∈ p.atoms, ∀ value ∈ a.values, ∃ l ∈ e.valueLiterals, l.value = value
  /-- Every text is that of a literal in a value position. -/
  text : ∀ a ∈ p.atoms, ∀ text, a.text? = some text → ∃ l ∈ e.valueLiterals, l.raw = text

namespace Expr

/-- Names that are not known are only let through where the options say so. -/
theorem passThrough_of_compile
    (hcompile : e.compile options resolver = .ok p) {name : String}
    (hname : name ∈ e.fieldNames) (hunknown : resolver name = none) :
    options.unknownFields = .passThrough := by
  cases hpolicy : options.unknownFields with
  | passThrough =>
      rfl
  | reject =>
      have hknown := (exists_compile_eq_ok_iff.1 ⟨p, hcompile⟩).2 hpolicy
      have hsome := List.find?_eq_none.1 hknown name hname
      simp [hunknown] at hsome

/--
**Compiled predicates are well formed.**  Whatever the resolver and the options, what an
expression compiles to joins two children or more at every connective, has a bound in
every range, and only one where ranges are not merged; all paths come from the resolver
and the field names, and all values and texts from the literals in value positions.
-/
theorem compile_wellFormed
    (hcompile : e.compile options resolver = .ok p) :
    p.WellFormed options resolver e := by
  have hpolicy := @passThrough_of_compile _ _ _ _ hcompile
  obtain ⟨hsaturated, q, hq, rfl⟩ := compile_eq_ok_iff.1 hcompile
  have hbranching : q.Branching := branching_toPredicate hsaturated hq
  have hbuilt : ∀ a ∈ q.atoms, BuiltFrom resolver.paths e.fieldNames e.valueLiterals a :=
    fun a ha => builtFrom_of_mem_atoms hq ha
  clear hcompile
  generalize hp : (if options.mergeRanges then q.mergeRanges else q) = p
  have hform : p.Branching ∧ Kept q.atoms p.atoms := by
    rw [← hp]
    split
    · exact ⟨Predicate.branching_mergeRanges hbranching, Predicate.kept_mergeRanges q⟩
    · exact ⟨hbranching, .refl _⟩
  obtain ⟨hbranching', hkept⟩ := hform
  refine
    { and_length := fun children hmem => hbranching' children (Or.inl hmem)
      or_length := fun children hmem => hbranching' children (Or.inr hmem)
      bounded := ?bounded
      unmerged := ?unmerged
      path := ?path
      value := ?value
      text := ?text }
  case bounded =>
    intro field lower upper hmem
    obtain ⟨lower', upper', hmem', hlower, hupper⟩ := hkept.ranges field lower upper hmem
    have hxor := (hbuilt _ hmem').isSome_eq_not_isSome
    cases hlower' : lower'.isSome with
    | true =>
        exact Or.inl (hlower hlower')
    | false =>
        exact Or.inr (hupper (by simpa [hlower'] using hxor))
  case unmerged =>
    intro hunmerged field lower upper hmem
    rw [hunmerged, if_neg Bool.false_ne_true] at hp
    subst hp
    have hxor := (hbuilt _ hmem).isSome_eq_not_isSome
    rintro ⟨hlower, hupper⟩
    simp [hlower, hupper] at hxor
  case path =>
    intro a ha path hpath
    have hfield : path ∈ q.atoms.filterMap Atom.field? :=
      (hkept.fields path).1 (List.mem_filterMap.2 ⟨a, ha, hpath⟩)
    obtain ⟨a', ha', hpath'⟩ := List.mem_filterMap.1 hfield
    obtain ⟨name, hname, hmem⟩ := (hbuilt a' ha').exists_path hpath'
    refine ⟨name, hname, ?_⟩
    rcases Resolver.mem_paths_iff.1 hmem with hknown | ⟨hunknown, hself⟩
    · exact Or.inl hknown
    · exact Or.inr ⟨hpolicy hname hunknown, hunknown, hself⟩
  case value =>
    intro a ha value hvalue
    obtain ⟨a', ha', hvalue'⟩ := hkept.exists_value ha hvalue
    exact (hbuilt a' ha').exists_value hvalue'
  case text =>
    intro a ha text htext
    obtain ⟨a', ha', htext'⟩ := hkept.exists_text ha htext
    exact (hbuilt a' ha').exists_text htext'

/-- Two bounds of a name that is not known are merged, beside a field with two paths. -/
theorem compile_wellFormed_merged :
    ∃ (resolver : Resolver) (e : Expr) (p : Predicate),
      resolver "size" = some (.ofPrimary "box" ["crate"]) ∧
      resolver "weight" = none ∧
      e.canonical = "and(lt|weight|5‖not(contains|and(size)|ab)‖gte|weight|1)" ∧
      e.compile { unknownFields := .passThrough } resolver = .ok p ∧
      p.WellFormed { unknownFields := .passThrough } resolver e ∧
      p.atoms = [
        .range "weight" (some ⟨.integer 1, true⟩) (some ⟨.integer 5, false⟩),
        .pattern "box" .contains "ab", .pattern "crate" .contains "ab"] := by
  refine ⟨fun name => if name = "size" then some (.ofPrimary "box" ["crate"]) else none,
    .junction .and [
      .compare (.bound .upper false)
        (.literal ⟨"weight", .string "weight", false⟩) (.literal ⟨"5", .integer 5, false⟩),
      .not (.compare (.pattern .contains)
        (.group .and [.literal ⟨"size", .string "size", false⟩])
        (.literal ⟨"ab", .string "ab", false⟩)),
      .compare (.bound .lower true)
        (.literal ⟨"weight", .string "weight", false⟩) (.literal ⟨"1", .integer 1, false⟩)],
    _, rfl, rfl, by cbv, rfl, ?_, rfl⟩
  exact compile_wellFormed rfl

end Expr

end Form

end FieldQuery
