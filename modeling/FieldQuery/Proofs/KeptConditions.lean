import Mathlib.Data.List.Induction
import FieldQuery.Proofs.MergedRanges
import FieldQuery.Proofs.NameTables

/-!
# What merging keeps

Merging moves the bounds of ranges about and does nothing else to the conditions that a
predicate is made of.  A bound is never lost, copied or put to the other side or to
another field, since a range only takes a bound where it has none.  The other atoms stay
in order, and no atom is added.

What is kept is a relation of two lists of atoms.  It holds of a list with itself, goes
along chains and along parts put together, and one step of a scan has it; so the whole
of a predicate has it.

**Results.**

* `ends_range_or`: a range that takes in another has the bounds of both;
* `kept_addChild`, `kept_joinRanges`: a step, and a scan;
* `kept_mergeRanges`: any predicate;
* `mergeRanges_keeps_conditions`: the same in terms of the predicate.
-/

namespace FieldQuery

namespace Atom

/-- Whether an atom is a range. -/
def isRange : Atom → Bool
  | range _ _ _ => true
  | _ => false

/-- The bounds of a range, each with its field and its side; other atoms have none. -/
def ends : Atom → List (String × Side × Bound)
  | range field lower upper =>
      lower.toList.map (field, .lower, ·) ++ upper.toList.map (field, .upper, ·)
  | _ => []

end Atom

section Atoms

variable {as bs cs as' bs' : List Atom}

/-- What the atoms `bs` keep of the atoms `as` that they were made of. -/
structure Kept (as bs : List Atom) : Prop where
  /-- The atoms that are no ranges are the same, in the same order. -/
  others : bs.filter (! ·.isRange) = as.filter (! ·.isRange)
  /-- The bounds of all ranges are the same, each as often as before. -/
  ends : (bs.flatMap Atom.ends).Perm (as.flatMap Atom.ends)
  /-- The same fields are tested. -/
  fields : ∀ field, field ∈ bs.filterMap Atom.field? ↔ field ∈ as.filterMap Atom.field?
  /-- Every range was there with no more ends bound. -/
  ranges : ∀ field lower upper, .range field lower upper ∈ bs →
    ∃ lower' upper', .range field lower' upper' ∈ as ∧
      (lower'.isSome = true → lower.isSome = true) ∧
      (upper'.isSome = true → upper.isSome = true)
  /-- No atom is added. -/
  length_le : bs.length ≤ as.length

namespace Kept

theorem refl
    (as : List Atom) :
    Kept as as where
  others := rfl
  ends := List.Perm.refl _
  fields := fun _ => Iff.rfl
  ranges := fun _ lower upper hmem => ⟨lower, upper, hmem, id, id⟩
  length_le := Nat.le_refl _

theorem trans
    (hab : Kept as bs) (hbc : Kept bs cs) :
    Kept as cs where
  others := hbc.others.trans hab.others
  ends := hbc.ends.trans hab.ends
  fields := fun field => (hbc.fields field).trans (hab.fields field)
  ranges := by
    intro field lower upper hmem
    obtain ⟨lower', upper', hmem', hlower, hupper⟩ := hbc.ranges field lower upper hmem
    obtain ⟨lower'', upper'', hmem'', hlower', hupper'⟩ := hab.ranges field lower' upper' hmem'
    exact ⟨lower'', upper'', hmem'', hlower ∘ hlower', hupper ∘ hupper'⟩
  length_le := Nat.le_trans hbc.length_le hab.length_le

theorem append
    (h : Kept as bs) (h' : Kept as' bs') :
    Kept (as ++ as') (bs ++ bs') where
  others := by
    rw [List.filter_append, List.filter_append, h.others, h'.others]
  ends := by
    rw [List.flatMap_append, List.flatMap_append]
    exact h.ends.append h'.ends
  fields := by
    intro field
    rw [List.filterMap_append, List.filterMap_append, List.mem_append, List.mem_append,
      h.fields, h'.fields]
  ranges := by
    intro field lower upper hmem
    rcases List.mem_append.1 hmem with hmem | hmem
    · obtain ⟨lower', upper', hmem', hends⟩ := h.ranges field lower upper hmem
      exact ⟨lower', upper', List.mem_append.2 (Or.inl hmem'), hends⟩
    · obtain ⟨lower', upper', hmem', hends⟩ := h'.ranges field lower upper hmem
      exact ⟨lower', upper', List.mem_append.2 (Or.inr hmem'), hends⟩
  length_le := by
    rw [List.length_append, List.length_append]
    exact Nat.add_le_add h.length_le h'.length_le

end Kept

/-- Of two ends of which one is free, the one that is taken holds what both hold. -/
theorem toList_or_of_compatible
    {a b : Option Bound} (hcompatible : Bound.compatible a b = true) :
    (a.or b).toList = b.toList ++ a.toList := by
  cases a with
  | none =>
      simp
  | some a =>
      cases b with
      | none =>
          rfl
      | some b =>
          simp [Bound.compatible] at hcompatible

/-- A range that takes in another has the bounds of both. -/
theorem ends_range_or
    {field : String} {lower upper lower' upper' : Option Bound}
    (hlower : Bound.compatible lower lower' = true)
    (hupper : Bound.compatible upper upper' = true) :
    (Atom.range field (lower.or lower') (upper.or upper')).ends.Perm
      ((Atom.range field lower' upper').ends ++ (Atom.range field lower upper).ends) := by
  simp only [Atom.ends, toList_or_of_compatible hlower, toList_or_of_compatible hupper,
    List.map_append, List.append_assoc]
  exact (List.perm_append_comm_assoc _ _ _).append_left _

/-- A range takes in a later one of its field, whatever stands between them. -/
theorem kept_range_or
    {field : String} {lower upper lower' upper' : Option Bound}
    (hlower : Bound.compatible lower lower' = true)
    (hupper : Bound.compatible upper upper' = true) (between : List Atom) :
    Kept (.range field lower' upper' :: between ++ [.range field lower upper])
      (.range field (lower.or lower') (upper.or upper') :: between) where
  others := by
    simp [Atom.isRange]
  ends := by
    simp only [List.flatMap_cons, List.flatMap_append, List.flatMap_nil, List.append_nil,
      List.cons_append]
    refine ((ends_range_or hlower hupper).append_right _).trans ?_
    rw [List.append_assoc]
    exact List.perm_append_comm.append_left _
  fields := by
    intro other
    have hfield : ∀ lower upper, Atom.field? (.range field lower upper) = some field := by
      intros
      rfl
    rw [List.cons_append, List.filterMap_cons_some (hfield _ _),
      List.filterMap_cons_some (hfield _ _), List.filterMap_append,
      List.filterMap_cons_some (hfield _ _)]
    simp only [List.filterMap_nil, List.mem_cons, List.mem_append, List.not_mem_nil, or_false]
    tauto
  ranges := by
    intro field' low up hmem
    rcases List.mem_cons.1 hmem with heq | hmem
    · cases heq
      exact ⟨lower', upper', by simp, by simp +contextual, by simp +contextual⟩
    · exact ⟨low, up, by simp [hmem], id, id⟩
  length_le := by
    simp

end Atoms

namespace Predicate

/-- A child that is added keeps its conditions, wherever it goes. -/
theorem kept_addChild
    (earlier : List Predicate) (c : Predicate) :
    Kept (atomsOf earlier ++ c.atoms) (atomsOf (addChild earlier c)) := by
  have hlast : Kept (atomsOf earlier ++ c.atoms) (atomsOf (earlier ++ [c])) := by
    rw [atomsOf_append, atomsOf, atomsOf, List.append_nil]
    exact .refl _
  unfold addChild
  split
  · split
    · rename_i hmove
      -- the range is filled in its place, and what is before it stays
      obtain ⟨before, lower', upper', after, rfl, hlower, hupper, rfl⟩ :=
        exists_of_moveInto? hmove
      rw [atomsOf_append, atomsOf_append, List.append_assoc]
      exact (Kept.refl _).append (kept_range_or hlower hupper (atomsOf after))
    · exact hlast
  · exact hlast

/-- A scan keeps the conditions of the children. -/
theorem kept_joinRanges
    (children : List Predicate) :
    Kept (atomsOf children) (atomsOf (joinRanges children)) := by
  induction children using List.reverseRecOn with
  | nil =>
      exact .refl _
  | append_singleton children c ih =>
      rw [joinRanges, List.foldl_append, atomsOf_append, atomsOf, atomsOf, List.append_nil]
      exact (ih.append (.refl _)).trans (kept_addChild _ c)

mutual

/-- **Merging keeps the conditions of a predicate.** -/
theorem kept_mergeRanges
    (p : Predicate) :
    Kept p.atoms p.mergeRanges.atoms := by
  cases p with
  | atom a =>
      exact .refl _
  | and children =>
      rw [mergeRanges, atoms_all]
      exact (kept_mergeRangesOf children).trans (kept_joinRanges _)
  | or children =>
      rw [mergeRanges, atoms_any]
      exact kept_mergeRangesOf children
  | not child =>
      rw [mergeRanges]
      exact kept_mergeRanges child

theorem kept_mergeRangesOf
    (ps : List Predicate) :
    Kept (atomsOf ps) (atomsOf (mergeRangesOf ps)) := by
  cases ps with
  | nil =>
      exact .refl _
  | cons p ps =>
      exact (kept_mergeRanges p).append (kept_mergeRangesOf ps)

end

theorem lookup_map_unit
    (name : String) (names : List String) :
    (names.map fun name => (name, ())).lookup name = if name ∈ names then some () else none := by
  induction names with
  | nil =>
      rfl
  | cons other names ih =>
      rw [List.map_cons, List.lookup_cons, ih]
      by_cases hname : name = other
      · simp [hname]
      · have hother : (name == other) = false := beq_false_of_ne hname
        simp [hname, hother]

/-- The fields of predicates are the same if their atoms test the same fields. -/
theorem fields_eq_of_mem_iff
    {p q : Predicate}
    (hfields : ∀ field, field ∈ p.atoms.filterMap Atom.field? ↔
      field ∈ q.atoms.filterMap Atom.field?) :
    p.fields = q.fields := by
  refine congrArg NameTable.names (NameTable.eq_of_find? fun name => ?_)
  rw [NameTable.find?_ofList, NameTable.find?_ofList, ← List.map_reverse, ← List.map_reverse,
    lookup_map_unit, lookup_map_unit]
  simp only [List.mem_reverse, hfields]

/--
**Merging neither loses nor invents conditions.**  The atoms that are no ranges stay the
same and in order, the bounds of all ranges stay the same, each with its field, its side
and as often as before; the same fields are tested, and atoms become no more.
-/
theorem mergeRanges_keeps_conditions
    (p : Predicate) :
    p.mergeRanges.atoms.filter (! ·.isRange) = p.atoms.filter (! ·.isRange) ∧
      (p.mergeRanges.atoms.flatMap Atom.ends).Perm (p.atoms.flatMap Atom.ends) ∧
      p.mergeRanges.fields = p.fields ∧
      p.mergeRanges.atomCount ≤ p.atomCount := by
  have hkept := kept_mergeRanges p
  exact ⟨hkept.others, hkept.ends, fields_eq_of_mem_iff hkept.fields, hkept.length_le⟩

end Predicate

end FieldQuery
