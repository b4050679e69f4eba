import FieldQuery.Proofs.CompileCases
import Mathlib.Algebra.BigOperators.Ring.List
import Mathlib.Algebra.Ring.Nat

/-!
# The atoms of a compiled query

Where ranges are not merged, compiling spreads the operands of a query over atoms and
does nothing else.  The atoms can be told from the query alone: its tests come in the
order of the text, and each test has an atom for every choice of a field name, a value
and a path of the field, the field name varying slowest and the path fastest.

**Results.**

* `atoms_spread`: spreading over an operand concatenates what its literals give;
* `atoms_toPredicate`: the atoms of an expression are those of its tests;
* `compile_atoms`: which atoms a compiled query has, and how many.
-/

namespace FieldQuery

/-- A test of a query: an operator with its operands. -/
inductive Test where
  | presence (p : Presence) (field : Operand)
  | search (mode : SearchMode) (value : Operand)
  | compare (c : Comparison) (field value : Operand)

namespace Expr

mutual

/-- The tests of an expression from left to right. -/
def tests : Expr → List Test
  | junction _ children => testsOf children
  | not child => tests child
  | presence p field => [.presence p field]
  | search mode value => [.search mode value]
  | compare c field value => [.compare c field value]

/-- The tests of several expressions from left to right. -/
def testsOf : List Expr → List Test
  | [] => []
  | e :: es => tests e ++ testsOf es

end

end Expr

namespace Test

/-- The atom of one comparison, of the value itself or of its text. -/
def compareAtom (path : String) (l : Literal) : Comparison → Atom
  | .equals => .equals path l.value
  | .pattern kind => .pattern path kind l.raw
  | .bound .lower inclusive => .range path (some ⟨l.value, inclusive⟩) none
  | .bound .upper inclusive => .range path none (some ⟨l.value, inclusive⟩)

/-- The atoms of a test, where each field name stands for some paths. -/
def atoms (paths : String → List String) : Test → List Atom
  | presence _ field =>
      field.literals.flatMap fun name => (paths name.raw).map .present
  | search mode value =>
      value.literals.map fun l => .freeText l.raw mode
  | compare c field value =>
      field.literals.flatMap fun name =>
        value.literals.flatMap fun l =>
          (paths name.raw).map fun path => compareAtom path l c

/-- The number of paths that the names in a field position stand for. -/
def pathCount (paths : String → List String) (field : Operand) : Nat :=
  (field.literals.map fun name => (paths name.raw).length).sum

/-- The number of atoms of a test: its paths times its values, where it has both. -/
def size (paths : String → List String) : Test → Nat
  | presence _ field => pathCount paths field
  | search _ value => value.literals.length
  | compare _ field value => pathCount paths field * value.literals.length

theorem length_atoms
    (paths : String → List String) (t : Test) :
    (t.atoms paths).length = t.size paths := by
  cases t with
  | presence p field =>
      simp [atoms, size, pathCount, List.length_flatMap]
  | search mode value =>
      simp [atoms, size]
  | compare c field value =>
      simp only [atoms, size, pathCount, List.length_flatMap, List.length_map,
        List.map_const', List.sum_replicate_nat]
      rw [← List.sum_map_mul_right]
      simp only [Nat.mul_comm]

end Test

section Pieces

namespace Predicate

theorem atomsOf_map_atom
    (build : String → Atom) (paths : List String) :
    atomsOf (paths.map fun path => .atom (build path)) = paths.map build := by
  induction paths with
  | nil =>
      rfl
  | cons path paths ih =>
      rw [List.map_cons, atomsOf, ih]
      rfl

end Predicate

/-- Whatever connective joins them, predicates keep their atoms. -/
theorem Connective.atoms_combine
    (connective : Connective) (ps : List Predicate) :
    (connective.combine ps).atoms = Predicate.atomsOf ps := by
  cases connective with
  | and =>
      exact Predicate.atoms_all ps
  | or =>
      exact Predicate.atoms_any ps
  | not =>
      exact Predicate.atoms_any ps

theorem Aliases.atoms_spread
    (aliases : Aliases) (build : String → Atom) :
    (aliases.spread build).atoms = aliases.paths.map build := by
  rw [spread, Predicate.atoms_any, Predicate.atomsOf_map_atom]

theorem Presence.atoms_test
    (presence : Presence) (p : Predicate) :
    (presence.test p).atoms = p.atoms := by
  cases presence <;> rfl

theorem Comparison.atom_eq_compareAtom
    (c : Comparison) (path : String) (l : Literal) :
    c.atom path l = Test.compareAtom path l c := by
  cases c with
  | equals =>
      rfl
  | pattern kind =>
      rfl
  | bound side inclusive =>
      cases side <;> rfl

end Pieces

namespace Operand

variable {leaf : Literal → Except CompileError Predicate} {f : Literal → List Atom}

mutual

/-- If each literal gives a predicate with certain atoms, the operand gives them in order. -/
theorem atoms_spread
    (hleaf : ∀ l q, leaf l = .ok q → q.atoms = f l)
    (x : Operand) {p : Predicate} (hspread : spread leaf x = .ok p) :
    p.atoms = x.literals.flatMap f := by
  cases x with
  | literal l =>
      rw [hleaf l p hspread, literals, List.flatMap_singleton]
  | group connective members =>
      obtain ⟨ps, hps, rfl⟩ := spread_group_eq_ok.1 hspread
      rw [connective.atoms_combine ps, atomsOf_spreadAll hleaf members hps, literals]

theorem atomsOf_spreadAll
    (hleaf : ∀ l q, leaf l = .ok q → q.atoms = f l)
    (xs : List Operand) {ps : List Predicate} (hspread : spreadAll leaf xs = .ok ps) :
    Predicate.atomsOf ps = (literalsOf xs).flatMap f := by
  cases xs with
  | nil =>
      cases hspread
      rfl
  | cons x xs =>
      obtain ⟨q, qs, hq, hqs, rfl⟩ := spreadAll_cons_eq_ok.1 hspread
      rw [Predicate.atomsOf, atoms_spread hleaf x hq, atomsOf_spreadAll hleaf xs hqs,
        literalsOf, List.flatMap_append]

end

end Operand

namespace Expr

variable {resolver : Resolver} {policy : UnknownFields} {p : Predicate}

theorem atoms_presence
    {presence : Presence} {field : Operand}
    (hp : toPredicate resolver policy (.presence presence field) = .ok p) :
    p.atoms = (Test.presence presence field).atoms resolver.paths := by
  rw [toPredicate] at hp
  rw [Test.atoms]
  refine Operand.atoms_spread ?_ field hp
  intro name q hq
  obtain ⟨aliases, hpaths, hq⟩ := exists_of_resolved hq
  cases hq
  rw [presence.atoms_test, aliases.atoms_spread, hpaths]

theorem atoms_search
    {mode : SearchMode} {value : Operand}
    (hp : toPredicate resolver policy (.search mode value) = .ok p) :
    p.atoms = (Test.search mode value).atoms resolver.paths := by
  rw [toPredicate] at hp
  rw [Test.atoms, List.map_eq_flatMap]
  refine Operand.atoms_spread ?_ value hp
  intro l q hq
  cases hq
  rfl

theorem atoms_compare
    {c : Comparison} {field value : Operand}
    (hp : toPredicate resolver policy (.compare c field value) = .ok p) :
    p.atoms = (Test.compare c field value).atoms resolver.paths := by
  rw [toPredicate] at hp
  rw [Test.atoms]
  refine Operand.atoms_spread ?_ field hp
  intro name q hq
  obtain ⟨aliases, hpaths, hq⟩ := exists_of_resolved hq
  -- one field name is fixed: what is left to spread are the values
  refine Operand.atoms_spread ?_ value hq
  intro l r hr
  cases hr
  rw [aliases.atoms_spread, hpaths]
  simp only [c.atom_eq_compareAtom]

mutual

/-- The atoms of an expression are those of its tests, in order. -/
theorem atoms_toPredicate
    (e : Expr) {p : Predicate} (hp : toPredicate resolver policy e = .ok p) :
    p.atoms = e.tests.flatMap (Test.atoms resolver.paths) := by
  cases e with
  | junction j children =>
      obtain ⟨ps, hps, rfl⟩ := toPredicate_junction_eq_ok.1 hp
      rw [j.connective.atoms_combine ps, atomsOf_toPredicates children hps, tests]
  | not child =>
      obtain ⟨q, hq, rfl⟩ := toPredicate_not_eq_ok.1 hp
      rw [Predicate.atoms, atoms_toPredicate child hq, tests]
  | presence presence field =>
      rw [atoms_presence hp, tests, List.flatMap_singleton]
  | search mode value =>
      rw [atoms_search hp, tests, List.flatMap_singleton]
  | compare c field value =>
      rw [atoms_compare hp, tests, List.flatMap_singleton]

theorem atomsOf_toPredicates
    (es : List Expr) {ps : List Predicate} (hps : toPredicates resolver policy es = .ok ps) :
    Predicate.atomsOf ps = (testsOf es).flatMap (Test.atoms resolver.paths) := by
  cases es with
  | nil =>
      cases hps
      rfl
  | cons e es =>
      obtain ⟨q, qs, hq, hqs, rfl⟩ := toPredicates_cons_eq_ok.1 hps
      rw [Predicate.atomsOf, atoms_toPredicate e hq, atomsOf_toPredicates es hqs, testsOf,
        List.flatMap_append]

end

/--
**A compiled query has the atoms of its tests.**  Read from left to right they are what
the tests give one after another: none is missing, added or repeated.
-/
theorem compile_atoms
    (hcompile :
      compile { unknownFields := policy, mergeRanges := false } resolver e = .ok p) :
    p.atoms = e.tests.flatMap (Test.atoms resolver.paths) ∧
      p.atomCount = (e.tests.map (Test.size resolver.paths)).sum := by
  obtain ⟨_, q, hq, rfl⟩ := compile_eq_ok_iff.1 hcompile
  have hatoms := atoms_toPredicate e hq
  refine ⟨hatoms, ?_⟩
  calc
    q.atomCount = (e.tests.flatMap (Test.atoms resolver.paths)).length := by
      rw [Predicate.atomCount, hatoms]
    _ = (e.tests.map (Test.size resolver.paths)).sum := by
      simp only [List.length_flatMap, Test.length_atoms]

/-- A field with two paths beside a name that is not known, and groups in both positions. -/
theorem compile_atoms_two_paths :
    ∃ (resolver : Resolver) (e : Expr) (p : Predicate),
      resolver "size" = some (.ofPrimary "box" ["crate"]) ∧
      resolver "weight" = none ∧
      e.canonical = "or(contains|or(size‖not(weight))|and(ab‖c)‖freetext|d)" ∧
      e.compile { unknownFields := .passThrough, mergeRanges := false } resolver = .ok p ∧
      (p.atoms = e.tests.flatMap (Test.atoms resolver.paths) ∧
        p.atomCount = (e.tests.map (Test.size resolver.paths)).sum) ∧
      p.atoms = [
        .pattern "box" .contains "ab", .pattern "crate" .contains "ab",
        .pattern "box" .contains "c", .pattern "crate" .contains "c",
        .pattern "weight" .contains "ab", .pattern "weight" .contains "c",
        .freeText "d" .terms] := by
  refine ⟨fun name => if name = "size" then some (.ofPrimary "box" ["crate"]) else none,
    .junction .or [
      .compare (.pattern .contains)
        (.group .or [
          .literal ⟨"size", .string "size", false⟩,
          .group .not [.literal ⟨"weight", .string "weight", false⟩]])
        (.group .and [
          .literal ⟨"ab", .string "ab", false⟩, .literal ⟨"c", .string "c", false⟩]),
      .search .terms (.literal ⟨"d", .string "d", false⟩)],
    _, rfl, rfl, by cbv, rfl, ?_, rfl⟩
  exact @compile_atoms _ .passThrough _ _ rfl

end Expr

end FieldQuery
