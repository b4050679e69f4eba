import FieldQuery.Query.Token
import FieldQuery.Text.Showing

/-!
# Query expressions

An expression tests a record.  Tests are joined by `and` and `or` and reversed
by `not`; where a test takes a field or a value, it may take a group of them.
An expression has a canonical text, which reads back to the same expression when
its literals are spelt as the reader would spell them, and an outline for people.
-/

namespace FieldQuery

/-- What stands in a field or value position: a literal, or a group. -/
inductive Operand where
  | literal (l : Literal)
  | group (connective : Connective) (members : List Operand)

instance : Inhabited Operand :=
  ⟨.group .and []⟩

/-- A query expression. -/
inductive Expr where
  | junction (j : Junction) (children : List Expr)
  | not (child : Expr)
  | presence (p : Presence) (field : Operand)
  | search (mode : SearchMode) (value : Operand)
  | compare (c : Comparison) (field value : Operand)

instance : Inhabited Expr :=
  ⟨.junction .and []⟩

/-- A place of a tree that lacks what its operator needs. -/
inductive Gap where
  | noChildren (j : Junction)
  | noMembers (connective : Connective)
deriving DecidableEq, Repr

namespace Gap

/-- The wording of a gap. -/
def message : Gap → String
  | noChildren j => "'" ++ j.connective.name ++ "' has no children"
  | noMembers connective => "'" ++ connective.name ++ "' group has no items"

end Gap

namespace Operand

mutual

/-- The first group without members, a group coming before what it holds. -/
def gap? : Operand → Option Gap
  | literal _ => none
  | group connective [] => some (.noMembers connective)
  | group _ (x :: xs) => (gap? x).or (gapIn? xs)

/-- The first group without members in a list of operands. -/
def gapIn? : List Operand → Option Gap
  | [] => none
  | x :: xs => (gap? x).or (gapIn? xs)

end

mutual

/-- How deeply groups are nested. -/
def depth : Operand → Nat
  | literal _ => 0
  | group _ members => 1 + depthOf members

/-- The depth of the deepest of several operands. -/
def depthOf : List Operand → Nat
  | [] => 0
  | x :: xs => max (depth x) (depthOf xs)

end

mutual

/-- The canonical text of an operand. -/
def canonical : Operand → String
  | literal l => l.canonical
  | group connective members => connective.name ++ "(" ++ canonicalOf members ++ ")"

/-- The canonical texts of several operands, separated by double bars. -/
def canonicalOf : List Operand → String
  | [] => ""
  | [x] => canonical x
  | x :: xs => canonical x ++ "‖" ++ canonicalOf xs

end

mutual

/-- Whether two operands are alike in every part. -/
def same : Operand → Operand → Bool
  | literal l, literal m => l = m
  | group c xs, group d ys => c = d && sameAll xs ys
  | _, _ => false

/-- Whether two lists of operands are alike, one by one. -/
def sameAll : List Operand → List Operand → Bool
  | [], [] => true
  | x :: xs, y :: ys => same x y && sameAll xs ys
  | _, _ => false

end

mutual

/-- The literals of an operand from left to right. -/
def literals : Operand → List Literal
  | literal l => [l]
  | group _ members => literalsOf members

/-- The literals of several operands from left to right. -/
def literalsOf : List Operand → List Literal
  | [] => []
  | x :: xs => literals x ++ literalsOf xs

end

end Operand

namespace Expr

/-- The operator at the head of an expression. -/
def operator : Expr → Operator
  | junction j _ => .junction j
  | not _ => .not
  | presence p _ => .presence p
  | search mode _ => .search mode
  | compare c _ _ => .compare c

mutual

/--
The first node without children or group without members: a node before what it
holds, a field before its value.
-/
def gap? : Expr → Option Gap
  | junction j [] => some (.noChildren j)
  | junction _ (e :: es) => (gap? e).or (gapIn? es)
  | not child => gap? child
  | presence _ field => field.gap?
  | search _ value => value.gap?
  | compare _ field value => field.gap?.or value.gap?

/-- The first gap in a list of expressions. -/
def gapIn? : List Expr → Option Gap
  | [] => none
  | e :: es => (gap? e).or (gapIn? es)

end

mutual

/-- How deeply parentheses are nested. -/
def depth : Expr → Nat
  | junction _ children => 1 + depthOf children
  | not child => 1 + depth child
  | presence _ field => field.depth
  | search _ value => value.depth
  | compare _ field value => max field.depth value.depth

/-- The depth of the deepest of several expressions. -/
def depthOf : List Expr → Nat
  | [] => 0
  | e :: es => max (depth e) (depthOf es)

end

mutual

/-- The canonical text of an expression. -/
def canonical : Expr → String
  | junction j children => j.connective.name ++ "(" ++ canonicalOf children ++ ")"
  | not child => "not(" ++ canonical child ++ ")"
  | presence p field => (Operator.presence p).name ++ "|" ++ field.canonical
  | search mode value => (Operator.search mode).name ++ "|" ++ value.canonical
  | compare c field value =>
      (Operator.compare c).name ++ "|" ++ field.canonical ++ "|" ++ value.canonical

/-- The canonical texts of several expressions, separated by double bars. -/
def canonicalOf : List Expr → String
  | [] => ""
  | [e] => canonical e
  | e :: es => canonical e ++ "‖" ++ canonicalOf es

end

mutual

/-- The outline of an expression: one node for each connective and each test. -/
def outline : Expr → Outline
  | junction j children => .node j.connective.name (outlines children)
  | not child => .node "not" [outline child]
  | presence p field =>
      .node ((Operator.presence p).name ++ " field=" ++ field.canonical) []
  | search mode value =>
      .node ((Operator.search mode).name ++ " value=" ++ value.canonical) []
  | compare c field value =>
      .node ((Operator.compare c).name ++ " field=" ++ field.canonical
        ++ " value=" ++ value.canonical) []

/-- The outlines of several expressions. -/
def outlines : List Expr → List Outline
  | [] => []
  | e :: es => outline e :: outlines es

end

/-- The outline as text. -/
def tree (e : Expr) : String :=
  e.outline.write

mutual

/-- Whether two expressions are alike in every part. -/
def same : Expr → Expr → Bool
  | junction j es, junction k fs => j = k && sameAll es fs
  | not e, not f => same e f
  | presence p x, presence q y => p = q && x.same y
  | search m x, search n y => m = n && x.same y
  | compare c x u, compare d y v => c = d && x.same y && u.same v
  | _, _ => false

/-- Whether two lists of expressions are alike, one by one. -/
def sameAll : List Expr → List Expr → Bool
  | [], [] => true
  | e :: es, f :: fs => same e f && sameAll es fs
  | _, _ => false

end

mutual

/-- The names in field positions from left to right. -/
def fieldNames : Expr → List String
  | junction _ children => fieldNamesOf children
  | not child => fieldNames child
  | presence _ field => field.literals.map Literal.raw
  | search _ _ => []
  | compare _ field _ => field.literals.map Literal.raw

/-- The names in the field positions of several expressions. -/
def fieldNamesOf : List Expr → List String
  | [] => []
  | e :: es => fieldNames e ++ fieldNamesOf es

end

/-- Every junction has a child and every group a member. -/
def Saturated (e : Expr) : Prop :=
  e.gap? = none

end Expr

end FieldQuery
