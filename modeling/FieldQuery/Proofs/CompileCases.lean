import FieldQuery.Compilation.Basic

/-!
# When compilation succeeds

Groups, connectives and whole expressions compile exactly when their parts do.
Each has one equivalence here, which says what the parts gave and how it was put
together; what is shown about compiled predicates is an induction along these.

**Results.**

* `spread_group_eq_ok`, `spreadAll_cons_eq_ok`: spreading over the members of groups;
* `paths_of_resolveField`, `exists_of_resolved`: the paths that stand for a field name;
* `toPredicate_junction_eq_ok`, `toPredicate_not_eq_ok`: the connectives;
* `compile_eq_ok_iff`: whole expressions, with their ranges merged or not.
-/

namespace FieldQuery

namespace Operand

variable {leaf : Literal → Except CompileError Predicate}

theorem spread_group_eq_ok
    {connective : Connective} {members : List Operand} {p : Predicate} :
    spread leaf (.group connective members) = .ok p ↔
      ∃ ps, spreadAll leaf members = .ok ps ∧ connective.combine ps = p := by
  rw [spread]
  cases spreadAll leaf members <;> simp

theorem spreadAll_cons_eq_ok
    {x : Operand} {xs : List Operand} {ps : List Predicate} :
    spreadAll leaf (x :: xs) = .ok ps ↔
      ∃ q qs, spread leaf x = .ok q ∧ spreadAll leaf xs = .ok qs ∧ q :: qs = ps := by
  rw [spreadAll]
  cases spread leaf x with
  | error err =>
      simp
  | ok q =>
      cases spreadAll leaf xs <;> simp

end Operand

/-- The paths that a name stands for, a name that is not known standing for itself. -/
def Resolver.paths (resolver : Resolver) (name : String) : List String :=
  match resolver name with
  | some aliases => aliases.paths
  | none => [name]

/-- A field name that is let through stands for the paths of its name. -/
theorem paths_of_resolveField
    {resolver : Resolver} {policy : UnknownFields} {name : String} {aliases : Aliases}
    (hresolve : resolveField resolver policy name = .ok aliases) :
    aliases.paths = resolver.paths name := by
  unfold resolveField at hresolve
  unfold Resolver.paths
  cases hname : resolver name with
  | some known =>
      simp only [hname, Except.ok.injEq] at hresolve
      rw [hresolve]
  | none =>
      cases policy with
      | reject =>
          simp [hname] at hresolve
      | passThrough =>
          simp only [hname, Except.ok.injEq] at hresolve
          rw [← hresolve]
          rfl

/-- What is built from the paths of a field name was built from the paths of its name. -/
theorem exists_of_resolved
    {resolver : Resolver} {policy : UnknownFields} {name : String}
    {build : Aliases → Except CompileError Predicate} {p : Predicate}
    (hp :
      (match resolveField resolver policy name with
        | .error err => Except.error err
        | .ok aliases => build aliases) = .ok p) :
    ∃ aliases, aliases.paths = resolver.paths name ∧ build aliases = .ok p := by
  cases hresolve : resolveField resolver policy name with
  | error err =>
      simp [hresolve] at hp
  | ok aliases =>
      simp only [hresolve] at hp
      exact ⟨aliases, paths_of_resolveField hresolve, hp⟩

namespace Expr

variable {resolver : Resolver} {policy : UnknownFields} {p : Predicate}

theorem toPredicate_junction_eq_ok
    {j : Junction} {children : List Expr} :
    toPredicate resolver policy (.junction j children) = .ok p ↔
      ∃ ps, toPredicates resolver policy children = .ok ps ∧
        j.connective.combine ps = p := by
  rw [toPredicate]
  cases toPredicates resolver policy children <;> simp

theorem toPredicate_not_eq_ok
    {child : Expr} :
    toPredicate resolver policy (.not child) = .ok p ↔
      ∃ q, toPredicate resolver policy child = .ok q ∧ .not q = p := by
  rw [toPredicate]
  cases toPredicate resolver policy child <;> simp

theorem toPredicates_cons_eq_ok
    {e : Expr} {es : List Expr} {ps : List Predicate} :
    toPredicates resolver policy (e :: es) = .ok ps ↔
      ∃ q qs, toPredicate resolver policy e = .ok q ∧
        toPredicates resolver policy es = .ok qs ∧ q :: qs = ps := by
  rw [toPredicates]
  cases toPredicate resolver policy e with
  | error err =>
      simp
  | ok q =>
      cases toPredicates resolver policy es <;> simp

/-- An expression compiles if it has no gap and its parts compile. -/
theorem compile_eq_ok_iff
    {options : CompileOptions} {e : Expr} :
    e.compile options resolver = .ok p ↔
      e.Saturated ∧
        ∃ q, e.toPredicate resolver options.unknownFields = .ok q ∧
          (if options.mergeRanges then q.mergeRanges else q) = p := by
  unfold compile Saturated
  cases e.gap? with
  | some gap =>
      simp
  | none =>
      cases e.toPredicate resolver options.unknownFields <;> simp

end Expr

end FieldQuery
