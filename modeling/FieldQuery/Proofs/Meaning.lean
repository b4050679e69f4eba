import FieldQuery.Predicate.RangeMerge

/-!
# The meaning of predicates

An interpretation gives a truth value to every test of one path and to every
single end of a range, whatever the records are.  A predicate then has a truth
value of its own: a range holds if both of its ends do, and an end that is left
open bounds nothing.

Merging ranges keeps this truth value.  A conjunction means the same before and
after one of its ranges has moved into another, since the end that it fills was
open and therefore true.

**Results.**

* `allHold_joinRanges`: the children of a conjunction hold together as before;
* `mergeRanges_equivalent`: merging keeps the meaning of every predicate.
-/

namespace FieldQuery

/-- A truth value for each test of a path, for each end of a range and for each search. -/
structure Interpretation where
  equals : String → Value → Bool
  bound : String → Side → Bound → Bool
  present : String → Bool
  pattern : String → PatternKind → String → Bool
  freeText : String → SearchMode → Bool

namespace Interpretation

variable (I : Interpretation)

/-- The truth of one end of a range; an open end is true. -/
def ending (field : String) (side : Side) : Option Bound → Bool
  | none => true
  | some b => I.bound field side b

/-- The truth of an atom. -/
def atom : Atom → Bool
  | .equals field value => I.equals field value
  | .range field lower upper => I.ending field .lower lower && I.ending field .upper upper
  | .present field => I.present field
  | .pattern field kind text => I.pattern field kind text
  | .freeText text mode => I.freeText text mode

/-- Of two ends that leave one free, the one that is taken is as true as both. -/
theorem ending_or
    (field : String) (side : Side) {a b : Option Bound}
    (hcompatible : Bound.compatible a b = true) :
    I.ending field side (a.or b) =
      (I.ending field side a && I.ending field side b) := by
  cases a with
  | none =>
      simp [ending]
  | some a =>
      cases b with
      | none =>
          simp [ending]
      | some b =>
          simp [Bound.compatible] at hcompatible

end Interpretation

namespace Predicate

mutual

/-- The truth of a predicate: an empty conjunction is true, an empty disjunction false. -/
def holds (I : Interpretation) : Predicate → Bool
  | .atom a => I.atom a
  | .and children => (truths I children).all id
  | .or children => (truths I children).any id
  | .not child => !holds I child

/-- The truth of several predicates, one by one. -/
def truths (I : Interpretation) : List Predicate → List Bool
  | [] => []
  | p :: ps => holds I p :: truths I ps

end

/-- Two predicates that are true under the same interpretations. -/
def Equivalent (p q : Predicate) : Prop :=
  ∀ I : Interpretation, p.holds I = q.holds I

section Truth

variable (I : Interpretation)

@[simp] theorem truths_append
    (ps qs : List Predicate) :
    truths I (ps ++ qs) = truths I ps ++ truths I qs := by
  induction ps with
  | nil =>
      rfl
  | cons p ps ih =>
      simp [truths, ih]

/-- A single child stands for itself in a conjunction. -/
@[simp] theorem holds_all
    (ps : List Predicate) :
    (all ps).holds I = (truths I ps).all id := by
  unfold all
  split
  · simp [truths]
  · rfl

/-- A single child stands for itself in a disjunction. -/
@[simp] theorem holds_any
    (ps : List Predicate) :
    (any ps).holds I = (truths I ps).any id := by
  unfold any
  split
  · simp [truths]
  · rfl

end Truth

section Merging

variable (I : Interpretation)

/-- A range that has moved into another is as true there as beside it. -/
theorem allHold_moveInto?
    {field : String} {lower upper : Option Bound} {ps qs : List Predicate}
    (hmove : moveInto? field lower upper ps = some qs) :
    (truths I qs).all id =
      (I.atom (.range field lower upper) && (truths I ps).all id) := by
  induction ps using moveInto?.induct field lower upper generalizing qs with
  | case1 =>
      simp [moveInto?] at hmove
  | case2 field' lower' upper' ps hfit =>
      rw [moveInto?, if_pos hfit] at hmove
      cases hmove
      obtain ⟨rfl, hlower, hupper⟩ := hfit
      have hjoined :
          I.atom (.range field' (lower.or lower') (upper.or upper')) =
            (I.atom (.range field' lower upper) && I.atom (.range field' lower' upper')) := by
        simp only [Interpretation.atom]
        rw [I.ending_or field' .lower hlower, I.ending_or field' .upper hupper]
        ac_rfl
      simp only [truths, holds, List.all_cons, id_eq]
      rw [hjoined, Bool.and_assoc]
  | case3 field' lower' upper' ps hfit ih =>
      rw [moveInto?, if_neg hfit] at hmove
      obtain ⟨rest, hrest, rfl⟩ := Option.map_eq_some_iff.1 hmove
      have hrest := ih hrest
      simp only [truths, List.all_cons, id_eq]
      rw [hrest, Bool.and_left_comm]
  | case4 p ps hother ih =>
      rw [moveInto?.eq_3 _ _ _ _ _ hother] at hmove
      obtain ⟨rest, hrest, rfl⟩ := Option.map_eq_some_iff.1 hmove
      have hrest := ih hrest
      simp only [truths, List.all_cons, id_eq]
      rw [hrest, Bool.and_left_comm]

/-- A child that is added holds beside the earlier ones, wherever it goes. -/
theorem allHold_addChild
    (earlier : List Predicate) (p : Predicate) :
    (truths I (addChild earlier p)).all id =
      ((truths I earlier).all id && p.holds I) := by
  unfold addChild
  split
  · rename_i field lower upper
    split
    · rename_i merged hmove
      rw [allHold_moveInto? I hmove, Bool.and_comm]
      rfl
    · simp [truths]
  · simp [truths]

theorem allHold_foldl_addChild
    (earlier children : List Predicate) :
    (truths I (children.foldl addChild earlier)).all id =
      ((truths I earlier).all id && (truths I children).all id) := by
  induction children generalizing earlier with
  | nil =>
      simp [truths]
  | cons p ps ih =>
      rw [List.foldl_cons, ih, allHold_addChild]
      simp only [truths, List.all_cons, id_eq]
      rw [Bool.and_assoc]

/-- Joining the ranges of a conjunction keeps what its children say together. -/
theorem allHold_joinRanges
    (children : List Predicate) :
    (truths I (joinRanges children)).all id = (truths I children).all id := by
  have hfold := allHold_foldl_addChild I [] children
  simpa [joinRanges, truths] using hfold

mutual

/-- Merging keeps the truth of a predicate. -/
theorem holds_mergeRanges
    (p : Predicate) :
    p.mergeRanges.holds I = p.holds I := by
  cases p with
  | atom a =>
      rfl
  | and children =>
      rw [mergeRanges, holds_all, allHold_joinRanges, truths_mergeRangesOf children, holds]
  | or children =>
      rw [mergeRanges, holds_any, truths_mergeRangesOf children, holds]
  | not child =>
      rw [mergeRanges, holds, holds_mergeRanges child, holds]

/-- Merging keeps the truth of each of several predicates. -/
theorem truths_mergeRangesOf
    (ps : List Predicate) :
    truths I (mergeRangesOf ps) = truths I ps := by
  cases ps with
  | nil =>
      rfl
  | cons p ps =>
      rw [mergeRangesOf, truths, holds_mergeRanges p, truths_mergeRangesOf ps, truths]

end

end Merging

/-- **Merging ranges never changes what a predicate says.** -/
theorem mergeRanges_equivalent
    (p : Predicate) :
    p.mergeRanges.Equivalent p := by
  intro I
  exact holds_mergeRanges I p

end Predicate

end FieldQuery
