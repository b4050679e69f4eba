import FieldQuery.NameTable
import FieldQuery.Query.Operator
import FieldQuery.Value

/-!
# Predicates

A predicate is the compiled form of a query: a Boolean combination of atoms, each
of which tests one concrete field path, or all text.
-/

namespace FieldQuery

/-- One end of a range, with whether it belongs to the range itself. -/
structure Bound where
  value : Value
  inclusive : Bool
deriving DecidableEq, Repr

/-- A test of one field path, or of all text. -/
inductive Atom where
  | equals (field : String) (value : Value)
  | range (field : String) (lower upper : Option Bound)
  | present (field : String)
  | pattern (field : String) (kind : PatternKind) (text : String)
  | freeText (text : String) (mode : SearchMode)
deriving DecidableEq, Repr

/-- A Boolean combination of atoms. -/
inductive Predicate where
  | atom (a : Atom)
  | and (children : List Predicate)
  | or (children : List Predicate)
  | not (child : Predicate)

instance : Inhabited Predicate :=
  ⟨.and []⟩

namespace Bound

/-- Equality of bounds, numbers being compared as arithmetic does. -/
def agrees (a b : Bound) : Bool :=
  a.value.agrees b.value && a.inclusive == b.inclusive

/-- Equality of bounds that may be absent. -/
def agreesOption : Option Bound → Option Bound → Bool
  | none, none => true
  | some a, some b => a.agrees b
  | _, _ => false

end Bound

namespace Atom

/-- The range that a comparison on one side of a value describes. -/
def ofBound (field : String) (side : Side) (inclusive : Bool) (value : Value) : Atom :=
  match side with
  | .lower => range field (some ⟨value, inclusive⟩) none
  | .upper => range field none (some ⟨value, inclusive⟩)

/-- The field path that an atom tests. -/
def field? : Atom → Option String
  | equals field _ | range field _ _ | present field | pattern field _ _ => some field
  | freeText _ _ => none

/-- Equality of atoms, numbers being compared as arithmetic does. -/
def agrees : Atom → Atom → Bool
  | equals f v, equals g w => f = g && v.agrees w
  | range f lo hi, range g lo' hi' =>
      f = g && Bound.agreesOption lo lo' && Bound.agreesOption hi hi'
  | present f, present g => f = g
  | pattern f k s, pattern g k' t => f = g && k = k' && s = t
  | freeText s m, freeText t n => s = t && m = n
  | _, _ => false

end Atom

namespace Predicate

/-- All children together; a single child stands for itself. -/
def all : List Predicate → Predicate
  | [p] => p
  | children => .and children

/-- Any of the children; a single child stands for itself. -/
def any : List Predicate → Predicate
  | [p] => p
  | children => .or children

mutual

/-- The atoms of a predicate from left to right. -/
def atoms : Predicate → List Atom
  | atom a => [a]
  | and children | or children => atomsOf children
  | not child => atoms child

/-- The atoms of several predicates from left to right. -/
def atomsOf : List Predicate → List Atom
  | [] => []
  | p :: ps => atoms p ++ atomsOf ps

end

theorem atomsOf_append
    (ps qs : List Predicate) :
    atomsOf (ps ++ qs) = atomsOf ps ++ atomsOf qs := by
  induction ps with
  | nil =>
      rfl
  | cons p ps ih =>
      rw [List.cons_append, atomsOf, atomsOf, ih, List.append_assoc]

/-- A single child has the atoms of the conjunction that it stands for. -/
theorem atoms_all
    (ps : List Predicate) :
    (all ps).atoms = atomsOf ps := by
  unfold all
  split
  · simp [atomsOf]
  · rfl

theorem atoms_any
    (ps : List Predicate) :
    (any ps).atoms = atomsOf ps := by
  unfold any
  split
  · simp [atomsOf]
  · rfl

/-- The number of atoms. -/
def atomCount (p : Predicate) : Nat :=
  p.atoms.length

/-- The field paths that occur, each once, in order by bytes. -/
def fields (p : Predicate) : List String :=
  (NameTable.ofList ((p.atoms.filterMap Atom.field?).map fun f => (f, ()))).names

mutual

/-- Equality of predicates, numbers being compared as arithmetic does. -/
def agrees : Predicate → Predicate → Bool
  | atom a, atom b => a.agrees b
  | and ps, and qs => agreesAll ps qs
  | or ps, or qs => agreesAll ps qs
  | not p, not q => agrees p q
  | _, _ => false

/-- Equality of lists of predicates, one by one. -/
def agreesAll : List Predicate → List Predicate → Bool
  | [], [] => true
  | p :: ps, q :: qs => agrees p q && agreesAll ps qs
  | _, _ => false

end

end Predicate

end FieldQuery
