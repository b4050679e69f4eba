import FieldQuery.Predicate.RangeMerge

/-!
# The form that merging leaves

Merging goes through a predicate once, from the leaves up, and through the children of
a conjunction once, from left to right.  Still nothing is left to merge.  The children
that a scan has gone through are pairwise apart: of two ranges of one field, both bound
the same side.  A range that is added behind them found no place among them, and a range
that takes in another one only gains bounds, so that it stays apart from the others.

**Results.**

* `exists_of_moveInto?`, `moveInto?_eq_none_iff`: where a range goes, and when it has no place;
* `pairwise_apart_joinRanges`: what a scan leaves is pairwise apart;
* `joinRanges_of_pairwise_apart`: a scan leaves such children as they are;
* `mergeRanges_merged`, `mergeRanges_of_merged`: merging leads to its form, and keeps it;
* `mergeRanges_normal_form`: both for every predicate.
-/

namespace FieldQuery

namespace Predicate

section Form

mutual

/-- A predicate and all that it is made of, each before its own parts. -/
def parts : Predicate → List Predicate
  | atom a => [.atom a]
  | and children => .and children :: partsOf children
  | or children => .or children :: partsOf children
  | not child => .not child :: parts child

/-- Several predicates and all that they are made of. -/
def partsOf : List Predicate → List Predicate
  | [] => []
  | p :: ps => parts p ++ partsOf ps

end

/-- Two predicates that are no ranges of one field, or ranges that both bound one side of it. -/
def Apart (p q : Predicate) : Prop :=
  ∀ field lower upper lower' upper',
    p = .atom (.range field lower upper) → q = .atom (.range field lower' upper') →
      (lower.isSome ∧ lower'.isSome) ∨ (upper.isSome ∧ upper'.isSome)

/-- The form of a predicate in which there is nothing left to merge. -/
structure Merged (p : Predicate) : Prop where
  /-- No conjunction has one child. -/
  and_length : ∀ children, .and children ∈ p.parts → children.length ≠ 1
  /-- No disjunction has one child. -/
  or_length : ∀ children, .or children ∈ p.parts → children.length ≠ 1
  /-- No two children of a conjunction are ranges that could be one. -/
  apart : ∀ children, .and children ∈ p.parts → children.Pairwise Apart

theorem mem_partsOf_iff
    {p : Predicate} {ps : List Predicate} :
    p ∈ partsOf ps ↔ ∃ q ∈ ps, p ∈ q.parts := by
  induction ps with
  | nil =>
      simp [partsOf]
  | cons q qs ih =>
      simp [partsOf, ih]

theorem Merged.atom (a : Atom) : Merged (.atom a) := by
  constructor <;> simp [parts]

theorem parts_subset_partsOf
    {p : Predicate} {ps : List Predicate} (hp : p ∈ ps) :
    p.parts ⊆ partsOf ps := by
  intro q hq
  exact mem_partsOf_iff.2 ⟨p, hp, hq⟩

/-- What a predicate of that form is made of is of that form. -/
theorem Merged.of_parts_subset
    {p q : Predicate} (hp : Merged p) (hparts : q.parts ⊆ p.parts) :
    Merged q :=
  ⟨fun ps hps => hp.and_length ps (hparts hps), fun ps hps => hp.or_length ps (hparts hps),
    fun ps hps => hp.apart ps (hparts hps)⟩

theorem merged_and_iff
    {children : List Predicate} :
    Merged (.and children) ↔
      children.length ≠ 1 ∧ children.Pairwise Apart ∧ ∀ p ∈ children, Merged p := by
  constructor
  · intro hmerged
    have hself : .and children ∈ (Predicate.and children).parts := by
      simp [parts]
    refine ⟨hmerged.and_length _ hself, hmerged.apart _ hself, fun p hp => ?_⟩
    exact hmerged.of_parts_subset
      (List.Subset.trans (parts_subset_partsOf hp) (List.subset_cons_self _ _))
  · rintro ⟨hlength, hapart, hchildren⟩
    constructor
    all_goals
      intro ps hps
      simp only [parts, List.mem_cons, mem_partsOf_iff, Predicate.and.injEq, reduceCtorEq,
        false_or] at hps
    · rcases hps with rfl | ⟨p, hp, hps⟩
      · exact hlength
      · exact (hchildren p hp).and_length ps hps
    · obtain ⟨p, hp, hps⟩ := hps
      exact (hchildren p hp).or_length ps hps
    · rcases hps with rfl | ⟨p, hp, hps⟩
      · exact hapart
      · exact (hchildren p hp).apart ps hps

theorem merged_or_iff
    {children : List Predicate} :
    Merged (.or children) ↔ children.length ≠ 1 ∧ ∀ p ∈ children, Merged p := by
  constructor
  · intro hmerged
    refine ⟨hmerged.or_length _ (by simp [parts]), fun p hp => ?_⟩
    exact hmerged.of_parts_subset
      (List.Subset.trans (parts_subset_partsOf hp) (List.subset_cons_self _ _))
  · rintro ⟨hlength, hchildren⟩
    constructor
    all_goals
      intro ps hps
      simp only [parts, List.mem_cons, mem_partsOf_iff, Predicate.or.injEq, reduceCtorEq,
        false_or] at hps
    · obtain ⟨p, hp, hps⟩ := hps
      exact (hchildren p hp).and_length ps hps
    · rcases hps with rfl | ⟨p, hp, hps⟩
      · exact hlength
      · exact (hchildren p hp).or_length ps hps
    · obtain ⟨p, hp, hps⟩ := hps
      exact (hchildren p hp).apart ps hps

theorem merged_not_iff
    {child : Predicate} :
    Merged (.not child) ↔ Merged child := by
  constructor
  · intro hmerged
    exact hmerged.of_parts_subset (List.subset_cons_self _ _)
  · rintro ⟨hand, hor, hapart⟩
    constructor
    all_goals
      intro ps hps
      simp only [parts, List.mem_cons, reduceCtorEq, false_or] at hps
    · exact hand ps hps
    · exact hor ps hps
    · exact hapart ps hps

/-- Children that are pairwise apart and of that form make up a predicate of that form. -/
theorem Merged.all
    {children : List Predicate}
    (hapart : children.Pairwise Apart) (hchildren : ∀ p ∈ children, Merged p) :
    Merged (all children) := by
  unfold Predicate.all
  split
  · exact hchildren _ (by simp)
  · rename_i hsingle
    refine merged_and_iff.2 ⟨?_, hapart, hchildren⟩
    intro hlength
    obtain ⟨p, rfl⟩ := List.length_eq_one_iff.1 hlength
    exact hsingle p rfl

theorem Merged.any
    {children : List Predicate}
    (hchildren : ∀ p ∈ children, Merged p) :
    Merged (any children) := by
  unfold Predicate.any
  split
  · exact hchildren _ (by simp)
  · rename_i hsingle
    refine merged_or_iff.2 ⟨?_, hchildren⟩
    intro hlength
    obtain ⟨p, rfl⟩ := List.length_eq_one_iff.1 hlength
    exact hsingle p rfl

end Form

section Scan

theorem Apart.symm {p q : Predicate} (hapart : Apart p q) : Apart q p := by
  intro field lower upper lower' upper' hq hp
  rcases hapart field lower' upper' lower upper hp hq with h | h
  · exact Or.inl h.symm
  · exact Or.inr h.symm

/-- A range that takes in the ends of another stays apart from what it was apart from. -/
theorem Apart.of_or
    {field : String} {lower upper lower' upper' : Option Bound} {q : Predicate}
    (hapart : Apart (.atom (.range field lower' upper')) q) :
    Apart (.atom (.range field (lower.or lower') (upper.or upper'))) q := by
  intro g lo hi lo' hi' hp hq
  cases hp
  rcases hapart field lower' upper' lo' hi' rfl hq with ⟨hend, hend'⟩ | ⟨hend, hend'⟩
  · exact Or.inl ⟨by simp [hend], hend'⟩
  · exact Or.inr ⟨by simp [hend], hend'⟩

/-- Two ranges of one field are apart exactly where one of them cannot take in the other. -/
theorem apart_range_iff
    {field : String} {lower upper lower' upper' : Option Bound} :
    Apart (.atom (.range field lower upper)) (.atom (.range field lower' upper')) ↔
      ¬ (Bound.compatible lower lower' = true ∧ Bound.compatible upper upper' = true) := by
  constructor
  · intro hapart
    rcases hapart field lower upper lower' upper' rfl rfl with ⟨h, h'⟩ | ⟨h, h'⟩
    all_goals
      obtain ⟨b, rfl⟩ := Option.isSome_iff_exists.1 h
      obtain ⟨b', rfl⟩ := Option.isSome_iff_exists.1 h'
      simp [Bound.compatible]
  · intro hfit g lo hi lo' hi' hp hq
    cases hp
    cases hq
    cases lower <;> cases lower' <;> cases upper <;> cases upper' <;>
      simp [Bound.compatible] at hfit ⊢

/-- A range moves into an earlier one of its field, which takes in its ends. -/
theorem exists_of_moveInto?
    {field : String} {lower upper : Option Bound} {ps qs : List Predicate}
    (hmove : moveInto? field lower upper ps = some qs) :
    ∃ before lower' upper' after,
      ps = before ++ .atom (.range field lower' upper') :: after ∧
      Bound.compatible lower lower' = true ∧ Bound.compatible upper upper' = true ∧
      qs = before ++ .atom (.range field (lower.or lower') (upper.or upper')) :: after := by
  induction ps using moveInto?.induct field lower upper generalizing qs with
  | case1 =>
      simp [moveInto?] at hmove
  | case2 field' lower' upper' ps hfit =>
      rw [moveInto?, if_pos hfit] at hmove
      cases hmove
      obtain ⟨rfl, hlower, hupper⟩ := hfit
      exact ⟨[], lower', upper', ps, rfl, hlower, hupper, rfl⟩
  | case3 field' lower' upper' ps hfit ih =>
      rw [moveInto?, if_neg hfit] at hmove
      obtain ⟨rest, hrest, rfl⟩ := Option.map_eq_some_iff.1 hmove
      obtain ⟨before, lo, hi, after, rfl, hlower, hupper, rfl⟩ := ih hrest
      exact ⟨_ :: before, lo, hi, after, rfl, hlower, hupper, rfl⟩
  | case4 p ps hother ih =>
      rw [moveInto?.eq_3 _ _ _ _ _ hother] at hmove
      obtain ⟨rest, hrest, rfl⟩ := Option.map_eq_some_iff.1 hmove
      obtain ⟨before, lo, hi, after, rfl, hlower, hupper, rfl⟩ := ih hrest
      exact ⟨_ :: before, lo, hi, after, rfl, hlower, hupper, rfl⟩

/-- A range has no place among predicates exactly where it is apart from all of them. -/
theorem moveInto?_eq_none_iff
    {field : String} {lower upper : Option Bound} {ps : List Predicate} :
    moveInto? field lower upper ps = none ↔
      ∀ p ∈ ps, Apart (.atom (.range field lower upper)) p := by
  induction ps using moveInto?.induct field lower upper with
  | case1 =>
      simp [moveInto?]
  | case2 field' lower' upper' ps hfit =>
      rw [moveInto?, if_pos hfit]
      obtain ⟨rfl, hends⟩ := hfit
      simp [apart_range_iff, hends]
  | case3 field' lower' upper' ps hfit ih =>
      have hfirst :
          Apart (.atom (.range field lower upper)) (.atom (.range field' lower' upper')) := by
        by_cases hfield : field' = field
        · subst hfield
          exact apart_range_iff.2 fun hends => hfit ⟨rfl, hends⟩
        · intro g lo hi lo' hi' hp hq
          cases hp
          cases hq
          exact absurd rfl hfield
      rw [moveInto?, if_neg hfit, Option.map_eq_none_iff, ih, List.forall_mem_cons]
      exact ⟨fun hps => ⟨hfirst, hps⟩, fun hps => hps.2⟩
  | case4 p ps hother ih =>
      have hfirst : Apart (.atom (.range field lower upper)) p := by
        intro g lo hi lo' hi' _ hq
        exact absurd hq (hother g lo' hi')
      rw [moveInto?.eq_3 _ _ _ _ _ hother, Option.map_eq_none_iff, ih, List.forall_mem_cons]
      exact ⟨fun hps => ⟨hfirst, hps⟩, fun hps => hps.2⟩

/-- What is no range is apart from everything. -/
theorem apart_of_ne_range
    {p : Predicate} (hother : ∀ field lower upper, p ≠ .atom (.range field lower upper))
    (q : Predicate) :
    Apart p q := by
  intro field lower upper lower' upper' hp
  exact absurd hp (hother field lower upper)

/-- Children that are pairwise apart stay so when one more is added. -/
theorem pairwise_apart_addChild
    {earlier : List Predicate} (p : Predicate) (hearlier : earlier.Pairwise Apart) :
    (addChild earlier p).Pairwise Apart := by
  have hlast : (∀ q ∈ earlier, Apart p q) → (earlier ++ [p]).Pairwise Apart := by
    intro hp
    refine List.pairwise_append.2 ⟨hearlier, List.pairwise_singleton _ _, ?_⟩
    intro q hq r hr
    rw [List.mem_singleton.1 hr]
    exact (hp q hq).symm
  unfold addChild
  split
  · split
    · rename_i merged hmove
      -- the range that is filled was apart from all others and only gains bounds
      obtain ⟨before, lower', upper', after, rfl, _, _, rfl⟩ := exists_of_moveInto? hmove
      obtain ⟨hbefore, hbehind, hbetween⟩ := List.pairwise_append.1 hearlier
      obtain ⟨hfilled, hafter⟩ := List.pairwise_cons.1 hbehind
      refine List.pairwise_append.2
        ⟨hbefore, List.pairwise_cons.2 ⟨fun q hq => (hfilled q hq).of_or, hafter⟩, ?_⟩
      intro q hq r hr
      rcases List.mem_cons.1 hr with rfl | hr
      · exact (hbetween q hq _ (by simp)).symm.of_or.symm
      · exact hbetween q hq r (by simp [hr])
    · rename_i hmove
      exact hlast (moveInto?_eq_none_iff.1 hmove)
  · rename_i hother
    exact hlast fun q _ => apart_of_ne_range hother q

/-- **What a scan leaves is pairwise apart.** -/
theorem pairwise_apart_joinRanges
    (children : List Predicate) :
    (joinRanges children).Pairwise Apart := by
  have hfold : ∀ earlier : List Predicate, earlier.Pairwise Apart →
      (children.foldl addChild earlier).Pairwise Apart := by
    induction children with
    | nil =>
        intro earlier hearlier
        exact hearlier
    | cons p ps ih =>
        intro earlier hearlier
        exact ih _ (pairwise_apart_addChild p hearlier)
  exact hfold [] List.Pairwise.nil

/-- A child that is apart from the earlier ones is added behind them. -/
theorem addChild_of_forall_apart
    {earlier : List Predicate} {p : Predicate} (hapart : ∀ q ∈ earlier, Apart q p) :
    addChild earlier p = earlier ++ [p] := by
  unfold addChild
  split
  · rw [moveInto?_eq_none_iff.2 fun q hq => (hapart q hq).symm]
  · rfl

/-- **A scan leaves children that are pairwise apart as they are.** -/
theorem joinRanges_of_pairwise_apart
    {children : List Predicate} (hapart : children.Pairwise Apart) :
    joinRanges children = children := by
  have hfold : ∀ earlier : List Predicate, (earlier ++ children).Pairwise Apart →
      children.foldl addChild earlier = earlier ++ children := by
    clear hapart
    induction children with
    | nil =>
        simp
    | cons p ps ih =>
        intro earlier hearlier
        have hp : ∀ q ∈ earlier, Apart q p := fun q hq =>
          (List.pairwise_append.1 hearlier).2.2 q hq p (by simp)
        rw [List.foldl_cons, addChild_of_forall_apart hp, ih _ (by simpa using hearlier)]
        simp
  exact hfold [] hapart

/-- What is there after a child is added was there, is that child, or is a filled range. -/
theorem mem_addChild
    {earlier : List Predicate} {p q : Predicate} (hq : q ∈ addChild earlier p) :
    q ∈ earlier ∨ q = p ∨ ∃ a, q = .atom a := by
  unfold addChild at hq
  split at hq
  · split at hq
    · rename_i hmove
      obtain ⟨before, lower', upper', after, rfl, _, _, rfl⟩ := exists_of_moveInto? hmove
      simp only [List.mem_append, List.mem_cons] at hq
      rcases hq with hq | rfl | hq
      · exact Or.inl (by simp [hq])
      · exact Or.inr (Or.inr ⟨_, rfl⟩)
      · exact Or.inl (by simp [hq])
    · exact (List.mem_append.1 hq).imp id fun hq => Or.inl (List.mem_singleton.1 hq)
  · exact (List.mem_append.1 hq).imp id fun hq => Or.inl (List.mem_singleton.1 hq)

/-- What a scan leaves is one of the children, or a range that took in others. -/
theorem mem_joinRanges
    {children : List Predicate} {q : Predicate} (hq : q ∈ joinRanges children) :
    q ∈ children ∨ ∃ a, q = .atom a := by
  have hfold : ∀ earlier : List Predicate, q ∈ children.foldl addChild earlier →
      q ∈ earlier ∨ q ∈ children ∨ ∃ a, q = .atom a := by
    clear hq
    induction children with
    | nil =>
        intro earlier hmem
        exact Or.inl hmem
    | cons p ps ih =>
        intro earlier hmem
        rcases ih _ hmem with hadded | hps | hatom
        · rcases mem_addChild hadded with hearlier | rfl | hatom
          · exact Or.inl hearlier
          · exact Or.inr (Or.inl (by simp))
          · exact Or.inr (Or.inr hatom)
        · exact Or.inr (Or.inl (by simp [hps]))
        · exact Or.inr (Or.inr hatom)
  rcases hfold [] hq with hnone | hmem
  · simp at hnone
  · exact hmem

end Scan

section Merging

mutual

/-- **Merging leads to its form.** -/
theorem mergeRanges_merged
    (p : Predicate) :
    Merged p.mergeRanges := by
  cases p with
  | atom a =>
      exact .atom a
  | and children =>
      rw [mergeRanges]
      refine .all (pairwise_apart_joinRanges _) fun q hq => ?_
      rcases mem_joinRanges hq with hq | ⟨a, rfl⟩
      · exact mergeRangesOf_merged children q hq
      · exact .atom a
  | or children =>
      rw [mergeRanges]
      exact .any (mergeRangesOf_merged children)
  | not child =>
      rw [mergeRanges]
      exact merged_not_iff.2 (mergeRanges_merged child)

theorem mergeRangesOf_merged
    (ps : List Predicate) :
    ∀ q ∈ mergeRangesOf ps, Merged q := by
  cases ps with
  | nil =>
      simp [mergeRangesOf]
  | cons p ps =>
      rw [mergeRangesOf, List.forall_mem_cons]
      exact ⟨mergeRanges_merged p, mergeRangesOf_merged ps⟩

end

theorem all_of_length_ne_one
    {children : List Predicate} (hlength : children.length ≠ 1) :
    all children = .and children := by
  unfold all
  split
  · simp at hlength
  · rfl

theorem any_of_length_ne_one
    {children : List Predicate} (hlength : children.length ≠ 1) :
    any children = .or children := by
  unfold any
  split
  · simp at hlength
  · rfl

mutual

/-- **Merging keeps what is of its form.** -/
theorem mergeRanges_of_merged
    {p : Predicate} (hp : Merged p) :
    p.mergeRanges = p := by
  cases p with
  | atom a =>
      rfl
  | and children =>
      obtain ⟨hlength, hapart, hchildren⟩ := merged_and_iff.1 hp
      rw [mergeRanges, mergeRangesOf_of_merged hchildren, joinRanges_of_pairwise_apart hapart,
        all_of_length_ne_one hlength]
  | or children =>
      obtain ⟨hlength, hchildren⟩ := merged_or_iff.1 hp
      rw [mergeRanges, mergeRangesOf_of_merged hchildren, any_of_length_ne_one hlength]
  | not child =>
      rw [mergeRanges, mergeRanges_of_merged (merged_not_iff.1 hp)]

theorem mergeRangesOf_of_merged
    {ps : List Predicate} (hps : ∀ p ∈ ps, Merged p) :
    mergeRangesOf ps = ps := by
  cases ps with
  | nil =>
      rfl
  | cons p ps =>
      obtain ⟨hp, hps⟩ := List.forall_mem_cons.1 hps
      rw [mergeRangesOf, mergeRanges_of_merged hp, mergeRangesOf_of_merged hps]

end

/--
**Merging gives a normal form in one pass.**  Nothing that is left is a conjunction or a
disjunction of one child, no two ranges of one field in a conjunction could still be
joined, and merging again changes nothing.
-/
theorem mergeRanges_normal_form
    (p : Predicate) :
    Merged p.mergeRanges ∧ p.mergeRanges.mergeRanges = p.mergeRanges := by
  have hmerged := mergeRanges_merged p
  exact ⟨hmerged, mergeRanges_of_merged hmerged⟩

/-- A range without ends and one lifted out of a conjunction of its own become one range. -/
example :
    (Predicate.and
      [.atom (.range "f" none none),
        .and [.atom (.range "f" none (some ⟨.integer 5, false⟩))],
        .atom (.range "f" (some ⟨.integer 1, true⟩) none)]).mergeRanges =
      .atom (.range "f" (some ⟨.integer 1, true⟩) (some ⟨.integer 5, false⟩)) := by
  rfl

end Merging

end Predicate

end FieldQuery
