import FieldQuery.Aliases
import FieldQuery.Predicate.RangeMerge
import FieldQuery.Query.Expr

/-!
# Compiling expressions

**Input**: an expression, a resolver and options.

**Output**: a predicate over concrete field paths.

**Algorithm**: every test is spread over the fields and values that its operands
hold.  The group of fields is outermost, the group of values is spread inside
each field, and the paths of one field are alternatives to each other.  A group
under `not` means none of its members.  Nothing is returned unless the whole
expression compiles.
-/

namespace FieldQuery

/-- What becomes of a field name that the resolver does not know. -/
inductive UnknownFields where
  | reject
  | passThrough
deriving DecidableEq, Repr

/-- The options of a compilation. -/
structure CompileOptions where
  unknownFields : UnknownFields := .reject
  mergeRanges : Bool := true
deriving DecidableEq, Repr

/-- Why an expression does not compile. -/
inductive CompileError where
  | unknownField (name : String)
  | malformed (gap : Gap)
deriving DecidableEq, Repr

namespace CompileError

/-- The wording of a compile error. -/
def message : CompileError → String
  | unknownField name => "unknown field: " ++ name
  | malformed gap => "malformed query tree: " ++ gap.message

end CompileError

namespace Connective

/-- The predicate of a group whose members have the given predicates. -/
def combine : Connective → List Predicate → Predicate
  | .and, members => .all members
  | .or, members => .any members
  | .not, members => .not (.any members)

end Connective

namespace Operand

mutual

/-- Builds a predicate for each literal and joins them as the groups say. -/
def spread (leaf : Literal → Except CompileError Predicate) :
    Operand → Except CompileError Predicate
  | literal l => leaf l
  | group connective members =>
      match spreadAll leaf members with
      | .error e => .error e
      | .ok ps => .ok (connective.combine ps)

/-- Spreads over several operands, up to the first failure. -/
def spreadAll (leaf : Literal → Except CompileError Predicate) :
    List Operand → Except CompileError (List Predicate)
  | [] => .ok []
  | x :: xs =>
      match spread leaf x with
      | .error e => .error e
      | .ok p =>
          match spreadAll leaf xs with
          | .error e => .error e
          | .ok ps => .ok (p :: ps)

end

end Operand

/-- The atom that compares one path with one literal. -/
def Comparison.atom (c : Comparison) (path : String) (l : Literal) : Atom :=
  match c with
  | .equals => .equals path l.value
  | .pattern kind => .pattern path kind l.raw
  | .bound side inclusive => .ofBound path side inclusive l.value

/-- The paths of a field as alternatives. -/
def Aliases.spread (aliases : Aliases) (build : String → Atom) : Predicate :=
  .any (aliases.paths.map fun path => .atom (build path))

/-- The predicate of a field having a value or lacking one. -/
def Presence.test : Presence → Predicate → Predicate
  | .present, p => p
  | .missing, p => .not p

/-- The paths of a field name under a policy for names that are not known. -/
def resolveField (resolver : Resolver) (policy : UnknownFields) (name : String) :
    Except CompileError Aliases :=
  match resolver name with
  | some aliases => .ok aliases
  | none =>
      match policy with
      | .reject => .error (.unknownField name)
      | .passThrough => .ok (.single name)

namespace Expr

mutual

/-- The predicate of an expression without gaps, its ranges not merged. -/
def toPredicate (resolver : Resolver) (policy : UnknownFields) :
    Expr → Except CompileError Predicate
  | junction j children =>
      match toPredicates resolver policy children with
      | .error e => .error e
      | .ok ps => .ok (j.connective.combine ps)
  | not child =>
      match toPredicate resolver policy child with
      | .error e => .error e
      | .ok p => .ok (.not p)
  | presence p field =>
      field.spread fun name =>
        match resolveField resolver policy name.raw with
        | .error e => .error e
        | .ok aliases => .ok (p.test (aliases.spread Atom.present))
  | search mode value =>
      value.spread fun l => .ok (.atom (.freeText l.raw mode))
  | compare c field value =>
      field.spread fun name =>
        match resolveField resolver policy name.raw with
        | .error e => .error e
        | .ok aliases =>
            value.spread fun l => .ok (aliases.spread fun path => c.atom path l)

/-- The predicates of several expressions, up to the first failure. -/
def toPredicates (resolver : Resolver) (policy : UnknownFields) :
    List Expr → Except CompileError (List Predicate)
  | [] => .ok []
  | e :: es =>
      match toPredicate resolver policy e with
      | .error err => .error err
      | .ok p =>
          match toPredicates resolver policy es with
          | .error err => .error err
          | .ok ps => .ok (p :: ps)

end

/-- The predicate of an expression. -/
def compile (options : CompileOptions) (resolver : Resolver) (e : Expr) :
    Except CompileError Predicate :=
  match e.gap? with
  | some gap => .error (.malformed gap)
  | none =>
      match e.toPredicate resolver options.unknownFields with
      | .error err => .error err
      | .ok p => .ok (if options.mergeRanges then p.mergeRanges else p)

end Expr

end FieldQuery
