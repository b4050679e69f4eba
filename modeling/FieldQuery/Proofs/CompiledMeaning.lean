import FieldQuery.Proofs.CompileCases
import FieldQuery.Proofs.Meaning

/-!
# The meaning of compiled queries

An expression can be read without compiling it.  Under an interpretation of the
tests of single paths, a connective joins truth values; a group says which truth
values its members need, the group of fields outside and the group of values
inside; and a field has whatever one of its paths has.

Compiling gives a predicate of the same truth, under every interpretation, with
ranges merged or not.

**Results.**

* `holds_spread`: spreading over an operand means what the operand says;
* `holds_toPredicate`: the predicate before merging means what the expression says;
* `compile_faithful`: so does the predicate of a whole compilation.
-/

namespace FieldQuery

/-- The truth of a group whose members have the given truth values. -/
def Connective.joins : Connective → List Bool → Bool
  | .and, values => values.all id
  | .or, values => values.any id
  | .not, values => !values.any id

namespace Operand

mutual

/-- The truth of a test that is made with the literals of an operand. -/
def holds (test : Literal → Bool) : Operand → Bool
  | literal l => test l
  | group connective members => connective.joins (truths test members)

/-- The truth of a test under several operands, one by one. -/
def truths (test : Literal → Bool) : List Operand → List Bool
  | [] => []
  | x :: xs => holds test x :: truths test xs

end

end Operand

/-- The truth of a field having a value, or of it lacking one. -/
def Presence.says : Presence → Bool → Bool
  | .present, b => b
  | .missing, b => !b

/-- The truth of a comparison of one path with one literal. -/
def Interpretation.compare (I : Interpretation) (path : String) (l : Literal) :
    Comparison → Bool
  | .equals => I.equals path l.value
  | .pattern kind => I.pattern path kind l.raw
  | .bound side inclusive => I.bound path side ⟨l.value, inclusive⟩

namespace Expr

mutual

/--
The truth of an expression, where each field name stands for some paths: a field
passes a test if one of its paths does, and is missing if none of them exists.
-/
def holds (I : Interpretation) (paths : String → List String) : Expr → Bool
  | junction j children => j.connective.joins (truths I paths children)
  | not child => !holds I paths child
  | presence p field =>
      field.holds fun name => p.says ((paths name.raw).any I.present)
  | search mode value =>
      value.holds fun l => I.freeText l.raw mode
  | compare c field value =>
      field.holds fun name =>
        value.holds fun l => (paths name.raw).any fun path => I.compare path l c

/-- The truths of several expressions, one by one. -/
def truths (I : Interpretation) (paths : String → List String) : List Expr → List Bool
  | [] => []
  | e :: es => holds I paths e :: truths I paths es

end

end Expr

section Pieces

variable (I : Interpretation)

/-- The predicate of a group is as true as the group of its members' truths. -/
theorem Connective.holds_combine
    (connective : Connective) (ps : List Predicate) :
    (connective.combine ps).holds I = connective.joins (Predicate.truths I ps) := by
  cases connective with
  | and =>
      exact Predicate.holds_all I ps
  | or =>
      exact Predicate.holds_any I ps
  | not =>
      rw [combine, Predicate.holds, Predicate.holds_any]
      rfl

theorem Presence.holds_test
    (presence : Presence) (p : Predicate) :
    (presence.test p).holds I = presence.says (p.holds I) := by
  cases presence with
  | present =>
      rfl
  | missing =>
      rw [test, Predicate.holds]
      rfl

theorem Comparison.atom_holds
    (c : Comparison) (path : String) (l : Literal) :
    I.atom (c.atom path l) = I.compare path l c := by
  cases c with
  | equals =>
      rfl
  | pattern kind =>
      rfl
  | bound side inclusive =>
      -- the other end of the range stays open
      cases side with
      | lower =>
          exact Bool.and_true _
      | upper =>
          exact Bool.true_and _

theorem truths_map_atom
    (build : String → Atom) (paths : List String) :
    Predicate.truths I (paths.map fun path => .atom (build path)) =
      paths.map fun path => I.atom (build path) := by
  induction paths with
  | nil =>
      rfl
  | cons path paths ih =>
      rw [List.map_cons, Predicate.truths, ih]
      rfl

/-- A field passes a test if one of its paths does. -/
theorem Aliases.holds_spread
    (aliases : Aliases) (build : String → Atom) :
    (aliases.spread build).holds I = aliases.paths.any fun path => I.atom (build path) := by
  rw [spread, Predicate.holds_any, truths_map_atom, List.any_map]
  rfl

end Pieces

namespace Operand

section Spreading

variable {I : Interpretation} {leaf : Literal → Except CompileError Predicate}
  {test : Literal → Bool}

mutual

/-- If each literal gives a predicate that means its test, so does the operand. -/
theorem holds_spread
    (hleaf : ∀ l q, leaf l = .ok q → q.holds I = test l)
    (x : Operand) {p : Predicate} (hspread : spread leaf x = .ok p) :
    p.holds I = x.holds test := by
  cases x with
  | literal l =>
      exact hleaf l p hspread
  | group connective members =>
      obtain ⟨ps, hps, rfl⟩ := spread_group_eq_ok.1 hspread
      rw [connective.holds_combine I ps, truths_spreadAll hleaf members hps, holds]

/-- The same for several operands, one by one. -/
theorem truths_spreadAll
    (hleaf : ∀ l q, leaf l = .ok q → q.holds I = test l)
    (xs : List Operand) {ps : List Predicate} (hspread : spreadAll leaf xs = .ok ps) :
    Predicate.truths I ps = truths test xs := by
  cases xs with
  | nil =>
      cases hspread
      rfl
  | cons x xs =>
      obtain ⟨q, qs, hq, hqs, rfl⟩ := spreadAll_cons_eq_ok.1 hspread
      rw [Predicate.truths, holds_spread hleaf x hq, truths_spreadAll hleaf xs hqs, truths]

end

end Spreading

end Operand

namespace Expr

variable {resolver : Resolver} {policy : UnknownFields}

section Operations

variable {I : Interpretation} {p : Predicate}

theorem holds_presence
    {presence : Presence} {field : Operand}
    (hp : toPredicate resolver policy (.presence presence field) = .ok p) :
    p.holds I = (Expr.presence presence field).holds I resolver.paths := by
  rw [toPredicate] at hp
  rw [holds]
  refine Operand.holds_spread ?_ field hp
  intro name q hq
  obtain ⟨aliases, hpaths, hq⟩ := exists_of_resolved hq
  cases hq
  rw [presence.holds_test I, aliases.holds_spread I, hpaths]
  rfl

theorem holds_search
    {mode : SearchMode} {value : Operand}
    (hp : toPredicate resolver policy (.search mode value) = .ok p) :
    p.holds I = (Expr.search mode value).holds I resolver.paths := by
  rw [toPredicate] at hp
  rw [holds]
  refine Operand.holds_spread ?_ value hp
  intro l q hq
  cases hq
  rfl

theorem holds_compare
    {c : Comparison} {field value : Operand}
    (hp : toPredicate resolver policy (.compare c field value) = .ok p) :
    p.holds I = (Expr.compare c field value).holds I resolver.paths := by
  rw [toPredicate] at hp
  rw [holds]
  refine Operand.holds_spread ?_ field hp
  intro name q hq
  obtain ⟨aliases, hpaths, hq⟩ := exists_of_resolved hq
  -- one field name is fixed: what is left to spread are the values
  refine Operand.holds_spread ?_ value hq
  intro l r hr
  cases hr
  rw [aliases.holds_spread I, hpaths]
  simp only [c.atom_holds I]

end Operations

section WholeExpressions

variable (I : Interpretation)

mutual

/-- The predicate of an expression is as true as the expression. -/
theorem holds_toPredicate
    (e : Expr) {p : Predicate} (hp : toPredicate resolver policy e = .ok p) :
    p.holds I = e.holds I resolver.paths := by
  cases e with
  | junction j children =>
      obtain ⟨ps, hps, rfl⟩ := toPredicate_junction_eq_ok.1 hp
      rw [j.connective.holds_combine I ps, truths_toPredicates children hps, holds]
  | not child =>
      obtain ⟨q, hq, rfl⟩ := toPredicate_not_eq_ok.1 hp
      rw [Predicate.holds, holds_toPredicate child hq, holds]
  | presence presence field =>
      exact holds_presence hp
  | search mode value =>
      exact holds_search hp
  | compare c field value =>
      exact holds_compare hp

/-- The predicates of several expressions are as true as these, one by one. -/
theorem truths_toPredicates
    (es : List Expr) {ps : List Predicate} (hps : toPredicates resolver policy es = .ok ps) :
    Predicate.truths I ps = truths I resolver.paths es := by
  cases es with
  | nil =>
      cases hps
      rfl
  | cons e es =>
      obtain ⟨q, qs, hq, hqs, rfl⟩ := toPredicates_cons_eq_ok.1 hps
      rw [Predicate.truths, holds_toPredicate e hq, truths_toPredicates es hqs, truths]

end

/--
**A compiled query means what the query says.**  Whatever the tests of single
paths say, the predicate of an expression is true exactly when the expression is.
-/
theorem compile_faithful
    {options : CompileOptions} {e : Expr} {p : Predicate}
    (hcompile : e.compile options resolver = .ok p) :
    p.holds I = e.holds I resolver.paths := by
  obtain ⟨_, q, hq, rfl⟩ := compile_eq_ok_iff.1 hcompile
  have hmeaning := holds_toPredicate I e hq
  split
  · rw [Predicate.holds_mergeRanges, hmeaning]
  · exact hmeaning

/-- A field with two paths, groups in both positions, and two bounds that become one range. -/
theorem compile_faithful_two_paths :
    ∃ (resolver : Resolver) (e : Expr) (p : Predicate),
      resolver "size" = some (.ofPrimary "box" ["crate"]) ∧
      e.canonical = "and(gt|weight|1‖lte|weight|5‖missing|size‖equals|not(size‖weight)|or(2‖3))" ∧
      e.compile { unknownFields := .passThrough } resolver = .ok p ∧
      p = .and [
        .atom (.range "weight" (some ⟨.integer 1, false⟩) (some ⟨.integer 5, true⟩)),
        .not (.or [.atom (.present "box"), .atom (.present "crate")]),
        .not (.or [
          .or [
            .or [.atom (.equals "box" (.integer 2)), .atom (.equals "crate" (.integer 2))],
            .or [.atom (.equals "box" (.integer 3)), .atom (.equals "crate" (.integer 3))]],
          .or [.atom (.equals "weight" (.integer 2)), .atom (.equals "weight" (.integer 3))]])] ∧
      ∀ I : Interpretation, p.holds I = e.holds I resolver.paths := by
  refine ⟨fun name => if name = "size" then some (.ofPrimary "box" ["crate"]) else none,
    .junction .and [
      .compare (.bound .lower false)
        (.literal ⟨"weight", .string "weight", false⟩) (.literal ⟨"1", .integer 1, false⟩),
      .compare (.bound .upper true)
        (.literal ⟨"weight", .string "weight", false⟩) (.literal ⟨"5", .integer 5, false⟩),
      .presence .missing (.literal ⟨"size", .string "size", false⟩),
      .compare .equals
        (.group .not [
          .literal ⟨"size", .string "size", false⟩, .literal ⟨"weight", .string "weight", false⟩])
        (.group .or [.literal ⟨"2", .integer 2, false⟩, .literal ⟨"3", .integer 3, false⟩])],
    _, rfl, by cbv, ?_, rfl, ?_⟩
  · rfl
  · intro I
    exact @compile_faithful _ I { unknownFields := .passThrough } _ _ rfl

end WholeExpressions

end Expr

end FieldQuery
