import FieldQuery.Predicate.Basic

/-!
# Merging ranges

Where all of several tests must hold, a lower and an upper bound on one field are
one range.  Merging goes through a predicate from the leaves up; among the
children of a conjunction each range moves into the first earlier range of its
field whose free ends have room for it.  Two bounds on one side are never joined.
-/

namespace FieldQuery

namespace Bound

/-- Whether two ends of one side leave one of them free. -/
def compatible (a b : Option Bound) : Bool :=
  a.isNone || b.isNone

end Bound

namespace Predicate

/--
Moves a range into the first of the given predicates that is a range of its field
with room for its ends; none if there is no such range.
-/
def moveInto? (field : String) (lower upper : Option Bound) :
    List Predicate → Option (List Predicate)
  | [] => none
  | .atom (.range field' lower' upper') :: ps =>
      if field' = field ∧ Bound.compatible lower lower' ∧ Bound.compatible upper upper' then
        some (.atom (.range field' (lower.or lower') (upper.or upper')) :: ps)
      else
        (moveInto? field lower upper ps).map (.atom (.range field' lower' upper') :: ·)
  | p :: ps => (moveInto? field lower upper ps).map (p :: ·)

/-- Adds a child behind the earlier ones, or moves it into one of them. -/
def addChild (earlier : List Predicate) : Predicate → List Predicate
  | .atom (.range field lower upper) =>
      match moveInto? field lower upper earlier with
      | some merged => merged
      | none => earlier ++ [.atom (.range field lower upper)]
  | p => earlier ++ [p]

/-- The children of a conjunction with their ranges merged. -/
def joinRanges (children : List Predicate) : List Predicate :=
  children.foldl addChild []

mutual

/-- A predicate with the ranges of every conjunction merged. -/
def mergeRanges : Predicate → Predicate
  | .atom a => .atom a
  | .and children => all (joinRanges (mergeRangesOf children))
  | .or children => any (mergeRangesOf children)
  | .not child => .not (mergeRanges child)

/-- Several predicates with their ranges merged, each by itself. -/
def mergeRangesOf : List Predicate → List Predicate
  | [] => []
  | p :: ps => mergeRanges p :: mergeRangesOf ps

end

end Predicate

end FieldQuery
