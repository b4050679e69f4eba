import Mathlib.Data.List.Induction
import FieldQuery.Proofs.MergedRanges

/-!
# How a scan pairs bounds

The ranges of one field that are bound on one side only come as two sequences, that of
the lower bounds and that of the upper ones.  However the two are interleaved, and
whatever stands between them, a scan makes ranges of the first lower and the first upper
bound, of the second ones, and so on; what is left over of the longer sequence stays
alone.  All that is scanned so far is paired in this way: the next lower bound goes to
the first range that lacks one, and stands for itself if none does.

**Results.**

* `interleaves_addChild`: a range passes by what it is apart from;
* `addChild_pairs_lower`, `addChild_pairs_upper`: the next bound joins the pairs;
* `Paired.add`: one step of a scan;
* `joinRanges_pairs_bounds`: what a scan leaves of any children.
-/

namespace FieldQuery

section Interleavings

variable {α : Type} {xs ys zs : List α}

/-- A list is made of two others, the elements of each staying in order. -/
inductive Interleaves : List α → List α → List α → Prop
  | nil :
      Interleaves [] [] []
  | left
      {x : α} {xs ys zs : List α}
      (hrest : Interleaves xs ys zs) :
      Interleaves (x :: xs) ys (x :: zs)
  | right
      {y : α} {xs ys zs : List α}
      (hrest : Interleaves xs ys zs) :
      Interleaves xs (y :: ys) (y :: zs)

namespace Interleaves

theorem append_left
    (h : Interleaves xs ys zs) (x : α) :
    Interleaves (xs ++ [x]) ys (zs ++ [x]) := by
  induction h with
  | nil =>
      exact .left .nil
  | left _ ih =>
      exact .left ih
  | right _ ih =>
      exact .right ih

theorem mem_iff
    (h : Interleaves xs ys zs) {z : α} :
    z ∈ zs ↔ z ∈ xs ∨ z ∈ ys := by
  induction h with
  | nil =>
      simp
  | left _ ih =>
      rw [List.mem_cons, List.mem_cons, ih, or_assoc]
  | right _ ih =>
      rw [List.mem_cons, List.mem_cons, ih, or_left_comm]

theorem eq_of_nil_left
    (h : Interleaves [] ys zs) :
    zs = ys := by
  induction ys generalizing zs with
  | nil =>
      cases h
      rfl
  | cons y ys ih =>
      cases h with
      | right hrest =>
          rw [ih hrest]

theorem eq_of_nil_right
    (h : Interleaves xs [] zs) :
    zs = xs := by
  induction xs generalizing zs with
  | nil =>
      cases h
      rfl
  | cons x xs ih =>
      cases h with
      | left hrest =>
          rw [ih hrest]

/-- What is chosen from a list interleaves what is chosen from its two parts. -/
theorem filter
    (h : Interleaves xs ys zs) (p : α → Bool) :
    Interleaves (xs.filter p) (ys.filter p) (zs.filter p) := by
  induction h with
  | nil =>
      exact .nil
  | left _ ih =>
      simp only [List.filter_cons]
      split
      · exact .left ih
      · exact ih
  | right _ ih =>
      simp only [List.filter_cons]
      split
      · exact .right ih
      · exact ih

/-- A list is made of the elements that a test refuses and of those that it lets through. -/
theorem of_filter
    (p : α → Bool) (xs : List α) :
    Interleaves (xs.filter (! p ·)) (xs.filter p) xs := by
  induction xs with
  | nil =>
      exact .nil
  | cons x xs ih =>
      cases hx : p x with
      | true =>
          rw [List.filter_cons_of_neg (by simp [hx]), List.filter_cons_of_pos hx]
          exact .right ih
      | false =>
          rw [List.filter_cons_of_pos (by simp [hx]), List.filter_cons_of_neg (by simp [hx])]
          exact .left ih

end Interleaves

end Interleavings

namespace Predicate

section Sequences

/-- Whether a predicate is a range of a field. -/
def isRangeOf (field : String) : Predicate → Bool
  | .atom (.range field' _ _) => field' = field
  | _ => false

/-- Whether a predicate is no range, or a range that is bound on both sides. -/
def isSettled : Predicate → Bool
  | .atom (.range _ lower upper) => lower.isSome && upper.isSome
  | _ => true

/-- The bound of a range of a field that is bound on one side only. -/
def loneBound? (field : String) : Side → Predicate → Option Bound
  | .lower, .atom (.range field' (some b) none)
  | .upper, .atom (.range field' none (some b)) => if field' = field then some b else none
  | _, _ => none

/-- The range of a field that is bound on one side only. -/
def loneRange (field : String) : Side → Bound → Predicate
  | .lower, b => .atom (.range field (some b) none)
  | .upper, b => .atom (.range field none (some b))

/-- The bounds of the ranges of a field that are bound on one side only, in order. -/
def loneBounds (field : String) (side : Side) (ps : List Predicate) : List Bound :=
  ps.filterMap (loneBound? field side)

/-- The ranges of a field that the first bounds of two lists make up, the second ones, and so on. -/
def pairs (field : String) (lowers uppers : List Bound) : List Predicate :=
  lowers.zipWithAll (fun lower upper => .atom (.range field lower upper)) uppers

variable {field : String} {lowers uppers : List Bound}

theorem isRangeOf_eq_true_iff
    {p : Predicate} :
    isRangeOf field p = true ↔ ∃ lower upper, p = .atom (.range field lower upper) := by
  unfold isRangeOf
  split
  · simp
  · rename_i hother
    simpa using fun lower upper => hother field lower upper

theorem pairs_cons_lower
    (field : String) (lower : Bound) (lowers uppers : List Bound) :
    pairs field (lower :: lowers) uppers =
      .atom (.range field (some lower) uppers.head?) :: pairs field lowers uppers.tail := by
  cases uppers <;> simp [pairs]

theorem pairs_cons_upper
    (field : String) (upper : Bound) (lowers uppers : List Bound) :
    pairs field lowers (upper :: uppers) =
      .atom (.range field lowers.head? (some upper)) :: pairs field lowers.tail uppers := by
  cases lowers <;> simp [pairs]

theorem length_pairs
    (field : String) (lowers uppers : List Bound) :
    (pairs field lowers uppers).length = max lowers.length uppers.length := by
  induction lowers generalizing uppers with
  | nil =>
      simp [pairs]
  | cons lower lowers ih =>
      rw [pairs_cons_lower, List.length_cons, ih, List.length_tail, List.length_cons]
      omega

/-- The `k`-th of these ranges has the `k`-th bounds, one of which may be missing. -/
theorem getElem?_pairs
    {k : Nat} (hk : k < max lowers.length uppers.length) :
    (pairs field lowers uppers)[k]? = some (.atom (.range field lowers[k]? uppers[k]?)) := by
  rw [pairs, List.getElem?_zipWithAll]
  split
  · rename_i hlower hupper
    rw [List.getElem?_eq_none_iff] at hlower hupper
    omega
  · rfl

theorem exists_of_mem_pairs
    {p : Predicate} (hp : p ∈ pairs field lowers uppers) :
    ∃ lower upper, p = .atom (.range field lower upper) ∧
      (lower.isSome = true ∨ upper.isSome = true) := by
  obtain ⟨k, hk⟩ := List.mem_iff_getElem?.1 hp
  have hlength : k < max lowers.length uppers.length := by
    rw [← length_pairs field]
    exact (List.getElem?_eq_some_iff.1 hk).1
  rw [getElem?_pairs hlength] at hk
  refine ⟨_, _, (Option.some.inj hk).symm, ?_⟩
  have hbound : k < lowers.length ∨ k < uppers.length := by
    omega
  rcases hbound with h | h
  · exact Or.inl (by simp [h])
  · exact Or.inr (by simp [h])

/-- Pairs of one field have no ranges of another. -/
theorem filter_pairs
    (field field' : String) (lowers uppers : List Bound) :
    (pairs field lowers uppers).filter (isRangeOf field') =
      if field = field' then pairs field lowers uppers else [] := by
  split
  · rename_i hfield
    refine List.filter_eq_self.2 fun p hp => ?_
    obtain ⟨lower, upper, rfl, _⟩ := exists_of_mem_pairs hp
    simp [isRangeOf, hfield]
  · rename_i hfield
    refine List.filter_eq_nil_iff.2 fun p hp => ?_
    obtain ⟨lower, upper, rfl, _⟩ := exists_of_mem_pairs hp
    simp [isRangeOf, hfield]

/-- Without the ranges of one field, those of another are still all there. -/
theorem filter_others
    (field field' : String) (ps : List Predicate) :
    (ps.filter (! isRangeOf field ·)).filter (isRangeOf field') =
      if field = field' then [] else ps.filter (isRangeOf field') := by
  rw [List.filter_filter]
  split
  · rename_i hfield
    simp [hfield]
  · rename_i hfield
    refine List.filter_congr fun p _ => ?_
    cases hp : isRangeOf field' p with
    | true =>
        obtain ⟨lower, upper, rfl⟩ := isRangeOf_eq_true_iff.1 hp
        simp [isRangeOf, Ne.symm hfield]
    | false =>
        rfl

theorem loneBounds_append_singleton
    (field : String) (side : Side) (ps : List Predicate) (c : Predicate) :
    loneBounds field side (ps ++ [c]) =
      loneBounds field side ps ++ (loneBound? field side c).toList := by
  rw [loneBounds, List.filterMap_append]
  cases hc : loneBound? field side c <;> simp [loneBounds, hc]

theorem loneBound?_of_isSettled
    {c : Predicate} (hc : isSettled c = true) (field : String) (side : Side) :
    loneBound? field side c = none := by
  unfold loneBound?
  split
  · simp [isSettled] at hc
  · simp [isSettled] at hc
  · rfl

theorem loneBound?_loneRange
    (field field' : String) (side side' : Side) (b : Bound) :
    loneBound? field' side' (loneRange field side b) =
      if field = field' ∧ side = side' then some b else none := by
  cases side <;> cases side' <;> simp [loneRange, loneBound?]

theorem isSettled_loneRange
    (field : String) (side : Side) (b : Bound) :
    isSettled (loneRange field side b) = false := by
  cases side <;> rfl

/-- A range that has a bound and is not settled is bound on one side only. -/
theorem exists_loneRange
    {c : Predicate} (hc : isSettled c = false)
    (hbound : ∀ field lower upper, c = .atom (.range field lower upper) →
      lower.isSome = true ∨ upper.isSome = true) :
    ∃ field side b, c = loneRange field side b := by
  unfold isSettled at hc
  split at hc
  · rename_i field lower upper
    cases lower with
    | none =>
        cases upper with
        | none =>
            simpa using hbound field none none rfl
        | some b =>
            exact ⟨field, .upper, b, rfl⟩
    | some b =>
        cases upper with
        | none =>
            exact ⟨field, .lower, b, rfl⟩
        | some _ =>
            simp at hc
  · cases hc

end Sequences

section Scan

variable {c p : Predicate} {field : String} {ps : List Predicate}

/-- A range goes on behind a predicate that it is apart from. -/
theorem moveInto?_cons_of_apart
    {lower upper : Option Bound} (hapart : Apart (.atom (.range field lower upper)) p) :
    moveInto? field lower upper (p :: ps) = (moveInto? field lower upper ps).map (p :: ·) := by
  cases p with
  | atom a =>
      cases a with
      | range field' lower' upper' =>
          refine if_neg ?_
          rintro ⟨rfl, hends⟩
          exact apart_range_iff.1 hapart hends
      | _ =>
          rfl
  | _ =>
      rfl

/-- A range with a bound has no room for a range that is bound on both sides. -/
theorem apart_of_isSettled
    (hbound : ∀ field lower upper, p = .atom (.range field lower upper) →
      lower.isSome = true ∨ upper.isSome = true)
    (hc : isSettled c = true) :
    Apart p c := by
  rintro field lower upper lower' upper' rfl rfl
  simp only [isSettled, Bool.and_eq_true] at hc
  exact (hbound field lower upper rfl).imp (⟨·, hc.1⟩) (⟨·, hc.2⟩)

/-- Ranges of other fields, and what is no range, are apart from the ranges of a field. -/
theorem apart_loneRange_of_other
    (hp : isRangeOf field p = false) (side : Side) (b : Bound) :
    Apart p (loneRange field side b) := by
  rintro field' lower upper lower' upper' rfl hrange
  cases side <;> cases hrange <;> simp [isRangeOf] at hp

theorem apart_loneRange_of_isSettled
    (hp : isSettled p = true) (field : String) (side : Side) (b : Bound) :
    Apart p (loneRange field side b) := by
  refine (apart_of_isSettled (fun field' lower upper hrange => ?_) hp).symm
  cases side <;> cases hrange <;> simp

theorem addChild_nil
    (c : Predicate) :
    addChild [] c = [c] := by
  unfold addChild
  split <;> rfl

/-- A child goes on behind a predicate that it is apart from. -/
theorem addChild_cons_of_apart
    (hapart : Apart p c) :
    addChild (p :: ps) c = p :: addChild ps c := by
  unfold addChild
  split
  · rw [moveInto?_cons_of_apart hapart.symm]
    cases moveInto? _ _ _ ps <;> rfl
  · rfl

/-- A child that is not apart from a predicate ends there, whatever comes behind it. -/
theorem exists_addChild_cons
    (hapart : ¬ Apart p c) :
    ∃ filled, ∀ ps, addChild (p :: ps) c = filled :: ps := by
  have hranges := hapart
  unfold Apart at hranges
  push Not at hranges
  obtain ⟨field, lower', upper', lower, upper, rfl, rfl, _⟩ := hranges
  have hfits := not_not.1 (mt apart_range_iff.2 (mt Apart.symm hapart))
  refine ⟨.atom (.range field (lower.or lower') (upper.or upper')), fun ps => ?_⟩
  rw [addChild, moveInto?, if_pos ⟨rfl, hfits⟩]

/-- A child passes by what it is apart from: it is added to the other predicates. -/
theorem interleaves_addChild
    {xs ys zs : List Predicate} (h : Interleaves xs ys zs) (hapart : ∀ x ∈ xs, Apart x c) :
    Interleaves xs (addChild ys c) (addChild zs c) := by
  induction h with
  | nil =>
      rw [addChild_nil]
      exact .right .nil
  | left _ ih =>
      rw [List.forall_mem_cons] at hapart
      rw [addChild_cons_of_apart hapart.1]
      exact .left (ih hapart.2)
  | @right y _ _ _ hrest ih =>
      by_cases hy : Apart y c
      · rw [addChild_cons_of_apart hy, addChild_cons_of_apart hy]
        exact .right (ih hapart)
      · obtain ⟨filled, hfilled⟩ := exists_addChild_cons hy
        rw [hfilled, hfilled]
        exact .right hrest

end Scan

section Pairing

variable {field : String}

/-- The next lower bound joins the first upper one that has none yet, or stands alone. -/
theorem addChild_pairs_lower
    (lowers uppers : List Bound) (b : Bound) :
    addChild (pairs field lowers uppers) (.atom (.range field (some b) none)) =
      pairs field (lowers ++ [b]) uppers := by
  induction lowers generalizing uppers with
  | nil =>
      cases uppers with
      | nil =>
          rfl
      | cons upper uppers =>
          simp [pairs, addChild, moveInto?, Bound.compatible]
  | cons lower lowers ih =>
      have hapart :
          Apart (.atom (.range field (some lower) uppers.head?))
            (.atom (.range field (some b) none)) := by
        simp [apart_range_iff, Bound.compatible]
      rw [pairs_cons_lower, addChild_cons_of_apart hapart, ih, List.cons_append,
        pairs_cons_lower]

/-- The next upper bound joins the first lower one that has none yet, or stands alone. -/
theorem addChild_pairs_upper
    (lowers uppers : List Bound) (b : Bound) :
    addChild (pairs field lowers uppers) (.atom (.range field none (some b))) =
      pairs field lowers (uppers ++ [b]) := by
  induction uppers generalizing lowers with
  | nil =>
      cases lowers with
      | nil =>
          rfl
      | cons lower lowers =>
          simp [pairs, addChild, moveInto?, Bound.compatible]
  | cons upper uppers ih =>
      have hapart :
          Apart (.atom (.range field lowers.head? (some upper)))
            (.atom (.range field none (some b))) := by
        simp [apart_range_iff, Bound.compatible]
      rw [pairs_cons_upper, addChild_cons_of_apart hapart, ih, List.cons_append,
        pairs_cons_upper]

/--
What has become of the children `seen`: the settled ones stand in `out` as they were, and
between them stand ranges that hold the other bounds, those of each field in pairs.
-/
structure Paired (seen paired out : List Predicate) : Prop where
  interleaves : Interleaves (seen.filter isSettled) paired out
  ranges : ∀ p ∈ paired, ∃ field, isRangeOf field p = true
  pairs : ∀ field,
    paired.filter (isRangeOf field) =
      pairs field (loneBounds field .lower seen) (loneBounds field .upper seen)

variable {seen paired out : List Predicate} {c : Predicate}

/-- Every range that a scan leaves has a bound. -/
theorem Paired.isSome_or_isSome
    (h : Paired seen paired out) {lower upper : Option Bound}
    (hmem : .atom (.range field lower upper) ∈ out) :
    lower.isSome = true ∨ upper.isSome = true := by
  rcases h.interleaves.mem_iff.1 hmem with hseen | hpaired
  · have hends := (List.mem_filter.1 hseen).2
    simp only [isSettled, Bool.and_eq_true] at hends
    exact Or.inl hends.1
  · have hfield : .atom (.range field lower upper) ∈ paired.filter (isRangeOf field) :=
      List.mem_filter.2 ⟨hpaired, by simp [isRangeOf]⟩
    rw [h.pairs] at hfield
    obtain ⟨lower', upper', heq, hbound⟩ := exists_of_mem_pairs hfield
    cases heq
    exact hbound

/-- A settled child stays behind all others. -/
theorem Paired.add_settled
    (h : Paired seen paired out) (hc : isSettled c = true) :
    Paired (seen ++ [c]) paired (addChild out c) := by
  have hapart : ∀ q ∈ out, Apart q c := fun q hq =>
    apart_of_isSettled (fun _ _ _ hrange => h.isSome_or_isSome (hrange ▸ hq)) hc
  constructor
  · rw [List.filter_append, List.filter_cons_of_pos hc, List.filter_nil,
      addChild_of_forall_apart hapart]
    exact h.interleaves.append_left c
  · exact h.ranges
  · intro field
    rw [h.pairs, loneBounds_append_singleton, loneBounds_append_singleton,
      loneBound?_of_isSettled hc, loneBound?_of_isSettled hc]
    simp

/-- The pairs of a field take in the next bound, on whichever side it is. -/
theorem addChild_pairs_loneBounds
    (field : String) (side : Side) (b : Bound) (seen : List Predicate) :
    addChild (Predicate.pairs field (loneBounds field .lower seen) (loneBounds field .upper seen))
        (loneRange field side b) =
      Predicate.pairs field (loneBounds field .lower (seen ++ [loneRange field side b]))
        (loneBounds field .upper (seen ++ [loneRange field side b])) := by
  rw [loneBounds_append_singleton, loneBounds_append_singleton, loneBound?_loneRange,
    loneBound?_loneRange]
  cases side with
  | lower =>
      simp [loneRange, addChild_pairs_lower]
  | upper =>
      simp [loneRange, addChild_pairs_upper]

/-- A range that is bound on one side goes to the pairs of its field and leaves all else. -/
theorem Paired.add_lone
    (h : Paired seen paired out) (field : String) (side : Side) (b : Bound) :
    Paired (seen ++ [loneRange field side b]) (addChild paired (loneRange field side b))
      (addChild out (loneRange field side b)) := by
  -- the pairs of the field stand between ranges of other fields, and these pass the new one by
  have hothers :=
    interleaves_addChild (.of_filter (isRangeOf field) paired) fun q hq =>
      apart_loneRange_of_other (by simpa using (List.mem_filter.1 hq).2) side b
  rw [h.pairs, addChild_pairs_loneBounds] at hothers
  constructor
  · rw [List.filter_append, List.filter_cons_of_neg (by simp [isSettled_loneRange]),
      List.filter_nil, List.append_nil]
    exact interleaves_addChild h.interleaves fun q hq =>
      apart_loneRange_of_isSettled (List.mem_filter.1 hq).2 field side b
  · intro p hp
    rcases hothers.mem_iff.1 hp with hp | hp
    · exact h.ranges p (List.mem_filter.1 hp).1
    · obtain ⟨lower', upper', rfl, _⟩ := exists_of_mem_pairs hp
      exact ⟨field, by simp [isRangeOf]⟩
  · intro field'
    have hchosen := hothers.filter (isRangeOf field')
    rw [filter_pairs, filter_others] at hchosen
    by_cases hfield : field = field'
    · subst hfield
      rw [if_pos rfl, if_pos rfl] at hchosen
      exact hchosen.eq_of_nil_left
    · rw [if_neg hfield, if_neg hfield] at hchosen
      rw [hchosen.eq_of_nil_right, h.pairs]
      simp [loneBounds_append_singleton, loneBound?_loneRange, hfield]

/-- **One step of a scan.**  Whatever child comes next, the pairs stay pairs. -/
theorem Paired.add
    (h : Paired seen paired out)
    (hbound : ∀ field lower upper, c = .atom (.range field lower upper) →
      lower.isSome = true ∨ upper.isSome = true) :
    ∃ paired', Paired (seen ++ [c]) paired' (addChild out c) := by
  cases hc : isSettled c with
  | true =>
      exact ⟨paired, h.add_settled hc⟩
  | false =>
      obtain ⟨field, side, b, rfl⟩ := exists_loneRange hc hbound
      exact ⟨_, h.add_lone field side b⟩

/-- **A whole scan** pairs what it goes through. -/
theorem exists_paired_joinRanges
    (children : List Predicate)
    (hbound : ∀ field lower upper, .atom (.range field lower upper) ∈ children →
      lower.isSome = true ∨ upper.isSome = true) :
    ∃ paired, Paired children paired (joinRanges children) := by
  induction children using List.reverseRecOn with
  | nil =>
      exact ⟨[], .nil, by simp, fun _ => rfl⟩
  | append_singleton children c ih =>
      obtain ⟨paired, hpaired⟩ := ih fun field lower upper hmem =>
        hbound field lower upper (by simp [hmem])
      rw [joinRanges, List.foldl_append]
      refine hpaired.add fun field lower upper hc => ?_
      exact hbound field lower upper (by simp [hc])

/--
**A scan pairs bounds in order.**  Of children whose ranges all have a bound it leaves
those that are no ranges, and the ranges that are bound on both sides, as they are and in
their order.  Between them it leaves, of each field, as many ranges as the longer one of
two sequences has bounds, that of the lower bounds and that of the upper bounds which
stand alone; and the `k`-th of these ranges has the `k`-th lower and the `k`-th upper one.
-/
theorem joinRanges_pairs_bounds
    (children : List Predicate)
    (hbound : ∀ field lower upper, .atom (.range field lower upper) ∈ children →
      lower.isSome = true ∨ upper.isSome = true) :
    ∃ paired,
      Interleaves (children.filter isSettled) paired (joinRanges children) ∧
      (∀ p ∈ paired, ∃ field, isRangeOf field p = true) ∧
      ∀ field,
        (paired.filter (isRangeOf field)).length =
          max (loneBounds field .lower children).length
            (loneBounds field .upper children).length ∧
        ∀ k < (paired.filter (isRangeOf field)).length,
          (paired.filter (isRangeOf field))[k]? =
            some (.atom (.range field (loneBounds field .lower children)[k]?
              (loneBounds field .upper children)[k]?)) := by
  obtain ⟨paired, hpaired⟩ := exists_paired_joinRanges children hbound
  refine ⟨paired, hpaired.interleaves, hpaired.ranges, fun field => ?_⟩
  rw [hpaired.pairs, length_pairs]
  exact ⟨rfl, fun k hk => getElem?_pairs hk⟩

/-- Two upper bounds come before three lower ones, with other children between them. -/
theorem joinRanges_pairs_bounds_mixed :
    ∃ children : List Predicate,
      (∀ field lower upper, .atom (.range field lower upper) ∈ children →
        lower.isSome = true ∨ upper.isSome = true) ∧
      loneBounds "a" .lower children =
        [⟨.integer 1, true⟩, ⟨.integer 2, true⟩, ⟨.integer 3, true⟩] ∧
      loneBounds "a" .upper children = [⟨.integer 9, false⟩, ⟨.integer 8, false⟩] ∧
      (∃ paired,
        Interleaves (children.filter isSettled) paired (joinRanges children) ∧
        (∀ p ∈ paired, ∃ field, isRangeOf field p = true) ∧
        ∀ field,
          (paired.filter (isRangeOf field)).length =
            max (loneBounds field .lower children).length
              (loneBounds field .upper children).length ∧
          ∀ k < (paired.filter (isRangeOf field)).length,
            (paired.filter (isRangeOf field))[k]? =
              some (.atom (.range field (loneBounds field .lower children)[k]?
                (loneBounds field .upper children)[k]?))) ∧
      joinRanges children =
        [.atom (.range "a" (some ⟨.integer 1, true⟩) (some ⟨.integer 9, false⟩)),
          .atom (.present "a"),
          .atom (.range "a" (some ⟨.integer 2, true⟩) (some ⟨.integer 8, false⟩)),
          .atom (.range "a" (some ⟨.integer 4, true⟩) (some ⟨.integer 5, true⟩)),
          .atom (.range "b" (some ⟨.integer 7, true⟩) none),
          .atom (.range "a" (some ⟨.integer 3, true⟩) none)] := by
  have hbound : ∀ field lower upper,
      .atom (.range field lower upper) ∈
        [loneRange "a" .upper ⟨.integer 9, false⟩, .atom (.present "a"),
          loneRange "a" .upper ⟨.integer 8, false⟩,
          .atom (.range "a" (some ⟨.integer 4, true⟩) (some ⟨.integer 5, true⟩)),
          loneRange "a" .lower ⟨.integer 1, true⟩, loneRange "b" .lower ⟨.integer 7, true⟩,
          loneRange "a" .lower ⟨.integer 2, true⟩, loneRange "a" .lower ⟨.integer 3, true⟩] →
      lower.isSome = true ∨ upper.isSome = true := by
    intro field lower upper hmem
    simp only [loneRange, List.mem_cons, List.not_mem_nil, or_false, Predicate.atom.injEq,
      Atom.range.injEq, reduceCtorEq, false_or] at hmem
    rcases hmem with ⟨_, rfl, rfl⟩ | ⟨_, rfl, rfl⟩ | ⟨_, rfl, rfl⟩ | ⟨_, rfl, rfl⟩ |
      ⟨_, rfl, rfl⟩ | ⟨_, rfl, rfl⟩ | ⟨_, rfl, rfl⟩
    all_goals simp
  exact ⟨_, hbound, rfl, rfl, joinRanges_pairs_bounds _ hbound, rfl⟩

end Pairing

end Predicate

end FieldQuery
