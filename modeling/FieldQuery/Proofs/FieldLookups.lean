import Mathlib.Logic.Function.Basic
import FieldQuery.Proofs.CompiledForm

/-!
# What compiling looks up

Compiling asks the resolver about names in field positions and about nothing else.
Whatever else the resolver would answer, values and searched texts are taken as they
stand.  So two ways of resolving names that agree on the field names of an expression
give the same predicate or the same error.

Letting unknown names through is one such way: it is what rejecting them is against a
resolver that knows every name, an unknown one as a path of its own.  A table of aliases
becomes that resolver when it gets its fallback.

**Results.**

* `spread_congr`, `toPredicate_congr`: compiling depends on what its field names resolve to;
* `resolveField_orSelf`, `resolver_withFallback`: both ways of letting a name through;
* `compile_reads_field_names`: resolvers that agree on field names cannot be told apart;
* `compile_passThrough`: letting names through and resolving them to themselves.
-/

namespace FieldQuery

section Dependence

namespace Operand

variable {leaf leaf' : Literal → Except CompileError Predicate}

mutual

/-- Spreading over an operand asks about the literals that it holds. -/
theorem spread_congr
    (x : Operand) (hleaf : ∀ l ∈ x.literals, leaf l = leaf' l) :
    spread leaf x = spread leaf' x := by
  cases x with
  | literal l =>
      exact hleaf l (by simp [literals])
  | group connective members =>
      rw [spread, spread, spreadAll_congr members hleaf]

theorem spreadAll_congr
    (xs : List Operand) (hleaf : ∀ l ∈ literalsOf xs, leaf l = leaf' l) :
    spreadAll leaf xs = spreadAll leaf' xs := by
  cases xs with
  | nil =>
      rfl
  | cons x xs =>
      rw [literalsOf, List.forall_mem_append] at hleaf
      rw [spreadAll, spreadAll, spread_congr x hleaf.1, spreadAll_congr xs hleaf.2]

end

end Operand

namespace Expr

variable {resolver resolver' : Resolver} {policy policy' : UnknownFields}

mutual

/-- What an expression gives depends on what its field names resolve to. -/
theorem toPredicate_congr
    (e : Expr)
    (hnames : ∀ name ∈ e.fieldNames,
      resolveField resolver policy name = resolveField resolver' policy' name) :
    toPredicate resolver policy e = toPredicate resolver' policy' e := by
  cases e with
  | junction j children =>
      rw [toPredicate, toPredicate, toPredicates_congr children hnames]
  | not child =>
      rw [toPredicate, toPredicate, toPredicate_congr child hnames]
  | presence p field =>
      rw [toPredicate, toPredicate]
      refine Operand.spread_congr field fun name hname => ?_
      rw [hnames name.raw (List.mem_map_of_mem hname)]
  | search mode value =>
      -- no name is looked up, so both sides are the same text
      rw [toPredicate, toPredicate]
  | compare c field value =>
      rw [toPredicate, toPredicate]
      refine Operand.spread_congr field fun name hname => ?_
      rw [hnames name.raw (List.mem_map_of_mem hname)]

theorem toPredicates_congr
    (es : List Expr)
    (hnames : ∀ name ∈ fieldNamesOf es,
      resolveField resolver policy name = resolveField resolver' policy' name) :
    toPredicates resolver policy es = toPredicates resolver' policy' es := by
  cases es with
  | nil =>
      rfl
  | cons e es =>
      rw [fieldNamesOf, List.forall_mem_append] at hnames
      rw [toPredicates, toPredicates, toPredicate_congr e hnames.1,
        toPredicates_congr es hnames.2]

end

/-- What an expression compiles to depends on what its field names resolve to. -/
theorem compile_congr
    {e : Expr} (merge : Bool)
    (hnames : ∀ name ∈ e.fieldNames,
      resolveField resolver policy name = resolveField resolver' policy' name) :
    e.compile ⟨policy, merge⟩ resolver = e.compile ⟨policy', merge⟩ resolver' := by
  unfold compile
  rw [toPredicate_congr e hnames]

end Expr

end Dependence

section FieldPositions

namespace Expr

variable {e : Expr}

/-- An expression whose tests all search for texts, in no field in particular. -/
def OnlySearches (e : Expr) : Prop :=
  ∀ t ∈ e.tests, ∃ mode value, t = .search mode value

theorem OnlySearches.fieldNames_eq_nil
    (hsearches : e.OnlySearches) :
    e.fieldNames = [] := by
  rw [fieldNames_eq_flatMap, List.flatMap_eq_nil_iff]
  intro t ht
  obtain ⟨mode, value, rfl⟩ := hsearches t ht
  rfl

theorem compile_congr_resolver
    {resolver resolver' : Resolver} (options : CompileOptions)
    (hagree : ∀ name ∈ e.fieldNames, resolver name = resolver' name) :
    e.compile options resolver = e.compile options resolver' := by
  refine compile_congr options.mergeRanges fun name hname => ?_
  unfold resolveField
  rw [hagree name hname]

/--
**Compiling reads the resolver at field names only.**  Two resolvers that agree on the
field names of an expression give the same predicate or the same error.  What a resolver
answers about another name, be it a value or a text of the expression, is never asked;
and where an expression does nothing but search for texts, a resolver that knows no name
is as good as any.
-/
theorem compile_reads_field_names
    (options : CompileOptions) (resolver : Resolver) (e : Expr) :
    (∀ resolver' : Resolver, (∀ name ∈ e.fieldNames, resolver name = resolver' name) →
      e.compile options resolver = e.compile options resolver')
      ∧
    (∀ name, name ∉ e.fieldNames → ∀ answer,
      e.compile options (Function.update resolver name answer) = e.compile options resolver)
      ∧
    (e.OnlySearches → e.compile options resolver = e.compile options fun _ => none) := by
  refine ⟨fun resolver' => compile_congr_resolver options, fun name hname answer => ?_,
    fun hsearches => ?_⟩
  · refine compile_congr_resolver options fun other hother => ?_
    have hne : other ≠ name := fun heq => hname (heq ▸ hother)
    exact Function.update_of_ne hne answer resolver
  · refine compile_congr_resolver options fun name hname => ?_
    rw [hsearches.fieldNames_eq_nil] at hname
    cases hname

/-- A name that is both a value and a searched text is not looked up, but a field is. -/
theorem compile_reads_field_names_shared_word :
    ∃ (resolver resolver' : Resolver) (e : Expr),
      e.canonical = "and(equals|or(hue‖not(tone))|or(red‖hue)‖freetext|red)" ∧
      resolver "red" = some (.single "r") ∧
      resolver' "red" = none ∧
      (∀ name ∈ e.fieldNames, resolver name = resolver' name) ∧
      (∀ options : CompileOptions, e.compile options resolver = e.compile options resolver') ∧
      e.compile {} resolver' = .error (.unknownField "tone") := by
  let literal (raw : String) : Operand := .literal ⟨raw, .string raw, false⟩
  let e : Expr := .junction .and [
    .compare .equals (.group .or [literal "hue", .group .not [literal "tone"]])
      (.group .or [literal "red", literal "hue"]),
    .search .terms (literal "red")]
  let resolver' : Resolver := fun name => if name = "hue" then some (.single "h") else none
  let resolver : Resolver := fun name =>
    if name = "red" then some (.single "r") else resolver' name
  have hagree : ∀ name ∈ e.fieldNames, resolver name = resolver' name := by
    intro name hname
    have hne : name ≠ "red" := by
      rintro rfl
      exact absurd hname (by decide)
    exact if_neg hne
  exact ⟨resolver, resolver', e, by cbv, rfl, rfl, hagree,
    fun options => (compile_reads_field_names options resolver e).1 resolver' hagree, rfl⟩

end Expr

end FieldPositions

section PassingThrough

/-- A resolver that knows every name, one that was unknown as a path of its own. -/
def Resolver.orSelf (resolver : Resolver) : Resolver :=
  fun name => some ((resolver name).getD (.single name))

variable {resolver : Resolver}

/-- A name that is let through has the paths of its name, or is a path itself. -/
theorem resolveField_passThrough
    (resolver : Resolver) (name : String) :
    resolveField resolver .passThrough name = .ok ((resolver name).getD (.single name)) := by
  unfold resolveField
  cases resolver name <;> rfl

/-- Where every name is known, the policy for unknown names is nothing to the result. -/
theorem resolveField_orSelf
    (resolver : Resolver) (policy : UnknownFields) (name : String) :
    resolveField resolver.orSelf policy name = .ok ((resolver name).getD (.single name)) := by
  rfl

/-- With its fallback a table knows every name. -/
theorem AliasTable.resolver_withFallback
    (t : AliasTable) :
    t.withFallback.resolver = t.resolver.orSelf := by
  funext name
  simp only [AliasTable.resolver, AliasTable.withFallback, Resolver.orSelf]
  cases t.entries.find? name with
  | some aliases =>
      rfl
  | none =>
      cases t.fallback <;> rfl

/-- A name that is known has the same paths under either policy. -/
theorem resolveField_of_isSome
    {name : String} (hknown : (resolver name).isSome) (policy policy' : UnknownFields) :
    resolveField resolver policy name = resolveField resolver policy' name := by
  obtain ⟨aliases, haliases⟩ := Option.isSome_iff_exists.1 hknown
  unfold resolveField
  rw [haliases]

namespace Expr

variable {e : Expr} {merge : Bool}

theorem compile_orSelf
    (policy : UnknownFields) :
    e.compile ⟨.passThrough, merge⟩ resolver = e.compile ⟨policy, merge⟩ resolver.orSelf := by
  refine compile_congr merge fun name _ => ?_
  rw [resolveField_passThrough, resolveField_orSelf]

/-- Where unknown names are let through, no name is to blame. -/
theorem compile_passThrough_ne_unknownField
    (name : String) :
    e.compile ⟨.passThrough, merge⟩ resolver ≠ .error (.unknownField name) := by
  intro herror
  obtain ⟨_, hreject, _⟩ := compile_eq_error_unknownField_iff.1 herror
  cases hreject

/-- What compiles although unknown names are rejected has none to let through. -/
theorem compile_passThrough_of_reject
    {p : Predicate} (hcompile : e.compile ⟨.reject, merge⟩ resolver = .ok p) :
    e.compile ⟨.passThrough, merge⟩ resolver = .ok p := by
  have hknown := (exists_compile_eq_ok_iff.1 ⟨p, hcompile⟩).2 rfl
  rw [← hcompile]
  refine compile_congr merge fun name hname => resolveField_of_isSome ?_ _ _
  have hsome := List.find?_eq_none.1 hknown name hname
  rwa [Bool.not_eq_true, Option.isNone_eq_false_iff] at hsome

/--
**Letting unknown names through is resolving them to themselves.**  It gives what
rejecting them gives against a resolver that knows every other name as a path of its own,
and against a table of aliases with its fallback, where the policy makes no difference.
It blames no name, and gives the same predicate wherever rejecting gives one.
-/
theorem compile_passThrough
    (merge : Bool) (resolver : Resolver) (e : Expr) :
    e.compile ⟨.passThrough, merge⟩ resolver = e.compile ⟨.reject, merge⟩ resolver.orSelf
      ∧
    (∀ (t : AliasTable) (policy : UnknownFields),
      e.compile ⟨.passThrough, merge⟩ t.resolver =
        e.compile ⟨policy, merge⟩ t.withFallback.resolver)
      ∧
    (∀ name, e.compile ⟨.passThrough, merge⟩ resolver ≠ .error (.unknownField name))
      ∧
    (∀ p, e.compile ⟨.reject, merge⟩ resolver = .ok p →
      e.compile ⟨.passThrough, merge⟩ resolver = .ok p) := by
  refine ⟨compile_orSelf .reject, fun t policy => ?_, compile_passThrough_ne_unknownField,
    fun p => compile_passThrough_of_reject⟩
  rw [t.resolver_withFallback]
  exact compile_orSelf policy

/-- An unknown name in nested groups is let through, and a known one compiles as before. -/
theorem compile_passThrough_nested_name :
    ∃ (t : AliasTable) (e e' : Expr) (p : Predicate),
      e.canonical = "equals|or(name‖not(state‖name))|1" ∧
      e.compile ⟨.reject, true⟩ t.resolver = .error (.unknownField "name") ∧
      e.compile ⟨.passThrough, true⟩ t.resolver =
        e.compile ⟨.reject, true⟩ t.withFallback.resolver ∧
      e'.canonical = "missing|state" ∧
      e'.compile ⟨.reject, true⟩ t.resolver = .ok p ∧
      e'.compile ⟨.passThrough, true⟩ t.resolver = .ok p := by
  let literal (raw : String) : Operand := .literal ⟨raw, .string raw, false⟩
  let t : AliasTable := .ofList [("state", .ofPrimary "state" ["town.state"])]
  let e : Expr := .compare .equals
    (.group .or [literal "name", .group .not [literal "state", literal "name"]])
    (.literal ⟨"1", .integer 1, false⟩)
  let e' : Expr := .presence .missing (literal "state")
  exact ⟨t, e, e', _, by cbv, rfl, (compile_passThrough true t.resolver e).2.1 t .reject, by cbv,
    rfl, (compile_passThrough true t.resolver e').2.2.2 _ rfl⟩

end Expr

end PassingThrough

end FieldQuery
