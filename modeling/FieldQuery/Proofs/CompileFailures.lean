import FieldQuery.Compilation.Run
import FieldQuery.Proofs.CanonicalText
import FieldQuery.Proofs.CompileCases

/-!
# Why a query does not compile

Compiling fails for two reasons.  A node of the tree may be empty, which is looked for
before anything else.  Or a name in a field position is not known and names that are
not known are rejected.  In both cases the first culprit is blamed: the first empty
node, where a node comes before what it holds and a field before its value, and the
first such name from left to right.

**Results.**

* `gap?_eq_find?`: the gap of a tree is its first empty node;
* `failure?_spread`, `failure?_toPredicate`: a failure is the first one in the text;
* `failure?_compile`: what an expression fails with, if it fails;
* `run_eq_error_malformedQuery_iff`, `run_of_parse`: what a run adds to it;
* `compile_failures`: when compiling and running fail, and with what.
-/

namespace FieldQuery

/-- A node that holds any number of others: a junction, or a group of fields or values. -/
inductive Node where
  | junction (j : Junction) (children : List Expr)
  | group (connective : Connective) (members : List Operand)

namespace Node

/-- Whether a node holds nothing. -/
def isEmpty : Node → Bool
  | junction _ children => children.isEmpty
  | group _ members => members.isEmpty

/-- The gap that an empty node is. -/
def gap : Node → Gap
  | junction j _ => .noChildren j
  | group connective _ => .noMembers connective

/-- What is said of an empty node. -/
def complaint : Node → String
  | junction j _ => "'" ++ (Operator.junction j).name ++ "' has no children"
  | group connective _ => "'" ++ connective.name ++ "' group has no items"

theorem message_gap
    (node : Node) :
    node.gap.message = node.complaint := by
  cases node with
  | junction j children =>
      cases j <;> rfl
  | group connective members =>
      rfl

end Node

section Nodes

namespace Operand

mutual

/-- The groups of an operand, each before those that it holds. -/
def nodes : Operand → List Node
  | literal _ => []
  | group connective members => .group connective members :: nodesOf members

/-- The groups of several operands. -/
def nodesOf : List Operand → List Node
  | [] => []
  | x :: xs => nodes x ++ nodesOf xs

end

mutual

theorem gap?_eq_find?
    (x : Operand) :
    x.gap? = (x.nodes.find? Node.isEmpty).map Node.gap := by
  cases x with
  | literal l =>
      rfl
  | group connective members =>
      cases members with
      | nil =>
          rfl
      | cons x xs =>
          exact gapIn?_eq_find? (x :: xs)

theorem gapIn?_eq_find?
    (xs : List Operand) :
    gapIn? xs = ((nodesOf xs).find? Node.isEmpty).map Node.gap := by
  cases xs with
  | nil =>
      rfl
  | cons x xs =>
      rw [gapIn?, nodesOf, List.find?_append, Option.map_or, gap?_eq_find? x,
        gapIn?_eq_find? xs]

end

end Operand

namespace Expr

mutual

/-- The nodes of an expression, each before those that it holds and fields before values. -/
def nodes : Expr → List Node
  | junction j children => .junction j children :: nodesOf children
  | not child => nodes child
  | presence _ field => field.nodes
  | search _ value => value.nodes
  | compare _ field value => field.nodes ++ value.nodes

/-- The nodes of several expressions. -/
def nodesOf : List Expr → List Node
  | [] => []
  | e :: es => nodes e ++ nodesOf es

end

mutual

/-- The gap of an expression is the first of its nodes that is empty. -/
theorem gap?_eq_find?
    (e : Expr) :
    e.gap? = (e.nodes.find? Node.isEmpty).map Node.gap := by
  cases e with
  | junction j children =>
      cases children with
      | nil =>
          rfl
      | cons e es =>
          exact gapIn?_eq_find? (e :: es)
  | not child =>
      rw [gap?, nodes, gap?_eq_find? child]
  | presence p field =>
      rw [gap?, nodes, field.gap?_eq_find?]
  | search mode value =>
      rw [gap?, nodes, value.gap?_eq_find?]
  | compare c field value =>
      rw [gap?, nodes, List.find?_append, Option.map_or, field.gap?_eq_find?,
        value.gap?_eq_find?]

theorem gapIn?_eq_find?
    (es : List Expr) :
    gapIn? es = ((nodesOf es).find? Node.isEmpty).map Node.gap := by
  cases es with
  | nil =>
      rfl
  | cons e es =>
      rw [gapIn?, nodesOf, List.find?_append, Option.map_or, gap?_eq_find? e,
        gapIn?_eq_find? es]

end

end Expr

end Nodes

section FirstFailure

variable {ε α : Type}

/-- What a computation fails with, if it fails. -/
def failure? : Except ε α → Option ε
  | .error err => some err
  | .ok _ => none

theorem failure?_eq_some_iff
    {r : Except ε α} {err : ε} :
    failure? r = some err ↔ r = .error err := by
  cases r <;> simp [failure?]

theorem failure?_eq_none_iff
    {r : Except ε α} :
    failure? r = none ↔ ∃ a, r = .ok a := by
  cases r <;> simp [failure?]

namespace Operand

variable {leaf : Literal → Except CompileError Predicate}

mutual

/-- Spreading over an operand fails as the first of its literals that fails. -/
theorem failure?_spread
    (x : Operand) :
    failure? (spread leaf x) = x.literals.findSome? fun l => failure? (leaf l) := by
  cases x with
  | literal l =>
      simp [spread, literals]
  | group connective members =>
      rw [spread, literals, ← failure?_spreadAll members]
      cases spreadAll leaf members <;> rfl

theorem failure?_spreadAll
    (xs : List Operand) :
    failure? (spreadAll leaf xs) = (literalsOf xs).findSome? fun l => failure? (leaf l) := by
  cases xs with
  | nil =>
      rfl
  | cons x xs =>
      rw [spreadAll, literalsOf, List.findSome?_append, ← failure?_spread x,
        ← failure?_spreadAll xs]
      cases spread leaf x with
      | error err =>
          rfl
      | ok p =>
          cases spreadAll leaf xs <;> rfl

end

/-- Where no literal fails, spreading does not fail. -/
theorem failure?_spread_ok
    (build : Literal → Predicate) (x : Operand) :
    failure? (spread (fun l => .ok (build l)) x) = none := by
  rw [failure?_spread, List.findSome?_eq_none_iff]
  intro l _
  rfl

end Operand

/-- A name is rejected if it is not known and such names are rejected. -/
theorem failure?_resolveField
    (resolver : Resolver) (policy : UnknownFields) (name : String) :
    failure? (resolveField resolver policy name) =
      if policy = .reject ∧ (resolver name).isNone then some (.unknownField name) else none := by
  unfold resolveField
  cases resolver name with
  | some aliases =>
      simp [failure?]
  | none =>
      cases policy <;> simp [failure?]

namespace Expr

variable {resolver : Resolver} {policy : UnknownFields}

mutual

/-- An expression without gaps fails as the first of its field names that is rejected. -/
theorem failure?_toPredicate
    (e : Expr) :
    failure? (toPredicate resolver policy e) =
      e.fieldNames.findSome? fun name => failure? (resolveField resolver policy name) := by
  cases e with
  | junction j children =>
      rw [toPredicate, fieldNames, ← failure?_toPredicates children]
      cases toPredicates resolver policy children <;> rfl
  | not child =>
      rw [toPredicate, fieldNames, ← failure?_toPredicate child]
      cases toPredicate resolver policy child <;> rfl
  | presence p field =>
      rw [toPredicate, fieldNames, Operand.failure?_spread, List.findSome?_map]
      congr 1
      funext name
      simp only [Function.comp_apply]
      cases resolveField resolver policy name.raw <;> rfl
  | search mode value =>
      rw [toPredicate, Operand.failure?_spread_ok]
      rfl
  | compare c field value =>
      rw [toPredicate, fieldNames, Operand.failure?_spread, List.findSome?_map]
      congr 1
      funext name
      simp only [Function.comp_apply]
      cases resolveField resolver policy name.raw with
      | error err =>
          rfl
      | ok aliases =>
          -- the name is resolved, and values cannot fail
          exact Operand.failure?_spread_ok _ value

theorem failure?_toPredicates
    (es : List Expr) :
    failure? (toPredicates resolver policy es) =
      (fieldNamesOf es).findSome? fun name =>
        failure? (resolveField resolver policy name) := by
  cases es with
  | nil =>
      rfl
  | cons e es =>
      rw [toPredicates, fieldNamesOf, List.findSome?_append, ← failure?_toPredicate e,
        ← failure?_toPredicates es]
      cases toPredicate resolver policy e with
      | error err =>
          rfl
      | ok p =>
          cases toPredicates resolver policy es <;> rfl

end

end Expr

/-- Of several names the first that is not known is rejected, if any is. -/
theorem findSome?_resolveField
    (resolver : Resolver) (policy : UnknownFields) (names : List String) :
    (names.findSome? fun name => failure? (resolveField resolver policy name)) =
      if policy = .reject then
        (names.find? fun name => (resolver name).isNone).map .unknownField
      else none := by
  induction names with
  | nil =>
      simp
  | cons name names ih =>
      rw [List.findSome?_cons, List.find?_cons, ih, failure?_resolveField]
      by_cases hreject : policy = .reject
      · cases hknown : (resolver name).isNone <;> simp [hreject]
      · simp [hreject]

end FirstFailure

namespace Expr

variable {options : CompileOptions} {resolver : Resolver} {e : Expr}

/--
An expression fails with its first empty node; if it has none, with the first of its
field names that is not known, where such names are rejected.
-/
theorem failure?_compile
    (options : CompileOptions) (resolver : Resolver) (e : Expr) :
    failure? (e.compile options resolver) =
      ((e.nodes.find? Node.isEmpty).map fun node => .malformed node.gap).or
        (if options.unknownFields = .reject then
          (e.fieldNames.find? fun name => (resolver name).isNone).map .unknownField
        else none) := by
  rw [compile, gap?_eq_find?, ← findSome?_resolveField, ← failure?_toPredicate]
  cases e.nodes.find? Node.isEmpty with
  | some node =>
      rfl
  | none =>
      cases e.toPredicate resolver options.unknownFields <;> rfl

theorem compile_eq_error_malformed_iff
    {gap : Gap} :
    e.compile options resolver = .error (.malformed gap) ↔
      ∃ node, e.nodes.find? Node.isEmpty = some node ∧ node.gap = gap := by
  rw [← failure?_eq_some_iff, failure?_compile]
  simp

theorem compile_eq_error_unknownField_iff
    {name : String} :
    e.compile options resolver = .error (.unknownField name) ↔
      e.nodes.find? Node.isEmpty = none ∧ options.unknownFields = .reject ∧
        e.fieldNames.find? (fun name => (resolver name).isNone) = some name := by
  rw [← failure?_eq_some_iff, failure?_compile]
  simp

theorem exists_compile_eq_ok_iff :
    (∃ p, e.compile options resolver = .ok p) ↔
      e.nodes.find? Node.isEmpty = none ∧
        (options.unknownFields = .reject →
          e.fieldNames.find? (fun name => (resolver name).isNone) = none) := by
  rw [← failure?_eq_none_iff, failure?_compile]
  simp

/-- Whether ranges are merged is nothing to a failure. -/
theorem compile_mergeRanges_eq_error_iff
    {merge : Bool} {err : CompileError} :
    e.compile { options with mergeRanges := merge } resolver = .error err ↔
      e.compile options resolver = .error err := by
  rw [← failure?_eq_some_iff, ← failure?_eq_some_iff, failure?_compile, failure?_compile]

/-- What was read from a query has no empty node. -/
theorem compile_ne_malformed_of_parse
    {limits : Limits} {query : String}
    (hparse : parse limits query = .ok e) (gap : Gap) :
    e.compile options resolver ≠ .error (.malformed gap) := by
  intro hmalformed
  obtain ⟨node, hnode, _⟩ := compile_eq_error_malformed_iff.1 hmalformed
  have hsaturated : e.gap? = none := (readable_of_parse hparse).saturated
  rw [gap?_eq_find?, hnode] at hsaturated
  cases hsaturated

end Expr

section Runs

variable {engine : Engine} {query : String} {e : Expr}

/-- A run of a query that was read gives what compiling its expression gives. -/
theorem run_of_parse
    (resolver : Resolver) (hparse : parse engine.limits query = .ok e) :
    (∀ p, engine.run resolver query = .ok p ↔ e.compile engine.options resolver = .ok p) ∧
      ∀ name, engine.run resolver query = .error (.unknownField name) ↔
        e.compile engine.options resolver = .error (.unknownField name) := by
  unfold Engine.run
  simp only [hparse]
  cases hcompile : e.compile engine.options resolver with
  | ok p =>
      simp [Except.mapError]
  | error err =>
      cases err with
      | unknownField name =>
          simp [Except.mapError, EngineError.ofCompile]
      | malformed gap =>
          exact absurd hcompile (Expr.compile_ne_malformed_of_parse hparse gap)

/-- A run blames the text of a query exactly where the text cannot be read. -/
theorem run_eq_error_malformedQuery_iff
    {resolver : Resolver} {err : SyntaxError} :
    engine.run resolver query = .error (.malformedQuery err) ↔
      parse engine.limits query = .error err := by
  cases hparse : parse engine.limits query with
  | error err' =>
      simp [Engine.run, hparse]
  | ok e =>
      obtain ⟨hok, hunknown⟩ := run_of_parse resolver hparse
      cases hcompile : e.compile engine.options resolver with
      | ok p =>
          simp [(hok p).2 hcompile]
      | error cause =>
          cases cause with
          | unknownField name =>
              simp [(hunknown name).2 hcompile]
          | malformed gap =>
              exact absurd hcompile (Expr.compile_ne_malformed_of_parse hparse gap)

end Runs

/--
**Compiling fails exactly when it must, and blames the first culprit.**  An expression
with an empty node fails with the first one, whatever the resolver says; another fails
with the first field name that is not known, where such names are rejected; no other
fails, and merging ranges changes none of this.  A run fails as reading does where
reading fails; what was read never has an empty node, and a run gives what compiling
it gives.
-/
theorem compile_failures
    (options : CompileOptions) (resolver : Resolver) :
    (∀ e : Expr,
      (∀ gap, e.compile options resolver = .error (.malformed gap) ↔
        ∃ node, e.nodes.find? Node.isEmpty = some node ∧ node.gap = gap ∧
          gap.message = node.complaint) ∧
      (∀ name, e.compile options resolver = .error (.unknownField name) ↔
        (∀ node ∈ e.nodes, node.isEmpty = false) ∧
          options.unknownFields = .reject ∧
          e.fieldNames.find? (fun name => (resolver name).isNone) = some name) ∧
      ((∃ p, e.compile options resolver = .ok p) ↔
        (∀ node ∈ e.nodes, node.isEmpty = false) ∧
          (options.unknownFields = .reject → ∀ name ∈ e.fieldNames, (resolver name).isSome)) ∧
      (∀ merge err,
        e.compile { options with mergeRanges := merge } resolver = .error err ↔
          e.compile options resolver = .error err))
      ∧
    (∀ (limits : Limits) (query : String),
      (∀ err, Engine.run ⟨limits, options⟩ resolver query = .error (.malformedQuery err) ↔
        parse limits query = .error err) ∧
      ∀ e, parse limits query = .ok e →
        (∀ gap, e.compile options resolver ≠ .error (.malformed gap)) ∧
        (∀ p, Engine.run ⟨limits, options⟩ resolver query = .ok p ↔
          e.compile options resolver = .ok p) ∧
        ∀ name, Engine.run ⟨limits, options⟩ resolver query = .error (.unknownField name) ↔
          e.compile options resolver = .error (.unknownField name)) := by
  refine ⟨fun e => ⟨fun gap => ?_, fun name => ?_, ?_, fun merge err => ?_⟩,
    fun limits query => ⟨fun err => ?_, fun e hparse => ⟨fun gap => ?_, ?_⟩⟩⟩
  · rw [Expr.compile_eq_error_malformed_iff]
    constructor
    · rintro ⟨node, hnode, rfl⟩
      exact ⟨node, hnode, rfl, node.message_gap⟩
    · rintro ⟨node, hnode, hgap, _⟩
      exact ⟨node, hnode, hgap⟩
  · simp only [Expr.compile_eq_error_unknownField_iff, List.find?_eq_none,
      Bool.not_eq_true]
  · simp only [Expr.exists_compile_eq_ok_iff, List.find?_eq_none, Bool.not_eq_true,
      Option.isNone_eq_false_iff]
  · exact Expr.compile_mergeRanges_eq_error_iff
  · exact run_eq_error_malformedQuery_iff
  · exact Expr.compile_ne_malformed_of_parse hparse gap
  · exact run_of_parse resolver hparse

/-- An empty group of values is blamed before a field name that is not known. -/
example :
    (Expr.compare .equals (.literal (.bare "hue")) (.group .or [])).compile {} (fun _ => none) =
      .error (.malformed (.noMembers .or)) := by
  rfl

end FieldQuery
