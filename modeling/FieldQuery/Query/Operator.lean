/-!
# The operator catalog

An operator is known by its keyword, in any mix of ASCII cases.  Its shape says
what may follow it: `and`, `or` and `not` hold expressions in parentheses, the
others take fields and values behind bars.  The three connectives also group
fields or values.
-/

namespace FieldQuery

/-- The operators that join several expressions. -/
inductive Junction where
  | and
  | or
deriving DecidableEq, Repr

/-- The words that join several fields or values into one. -/
inductive Connective where
  | and
  | or
  | not
deriving DecidableEq, Repr

/-- Whether a field has a value or lacks one. -/
inductive Presence where
  | present
  | missing
deriving DecidableEq, Repr

/-- How text is searched for regardless of its field. -/
inductive SearchMode where
  | terms
  | regexp
deriving DecidableEq, Repr

/-- How the text of a field is matched. -/
inductive PatternKind where
  | contains
  | startsWith
  | endsWith
  | regexp
deriving DecidableEq, Repr

/-- The two ends of a range. -/
inductive Side where
  | lower
  | upper
deriving DecidableEq, Repr

/-- How a field is compared with a value. -/
inductive Comparison where
  | equals
  | pattern (kind : PatternKind)
  | bound (side : Side) (inclusive : Bool)
deriving DecidableEq, Repr

/-- An operator, by the shape of what it takes. -/
inductive Operator where
  | junction (j : Junction)
  | not
  | search (mode : SearchMode)
  | presence (p : Presence)
  | compare (c : Comparison)
deriving DecidableEq, Repr

/-- How many operands an operator takes. -/
inductive Arity where
  | atLeastOne
  | exactly (n : Nat)
deriving DecidableEq, Repr

namespace Arity

/-- Whether a number of operands is allowed. -/
def accepts : Arity → Nat → Bool
  | atLeastOne, n => 1 ≤ n
  | exactly m, n => m = n

/-- The number, when only one is allowed. -/
def only? : Arity → Option Nat
  | atLeastOne => none
  | exactly n => some n

/-- The arity in the words of an error message. -/
def describe : Arity → String
  | atLeastOne => "at least 1"
  | exactly n => "exactly " ++ n.repr

end Arity

namespace PatternKind

/-- The keyword of a kind of pattern. -/
def name : PatternKind → String
  | contains => "contains"
  | startsWith => "startswith"
  | endsWith => "endswith"
  | regexp => "regexp"

end PatternKind

namespace Junction

/-- The connective of the same word. -/
def connective : Junction → Connective
  | and => .and
  | or => .or

end Junction

namespace Connective

/-- The keyword of a connective. -/
def name : Connective → String
  | and => "and"
  | or => "or"
  | not => "not"

/-- The operator of the same word. -/
def operator : Connective → Operator
  | and => .junction .and
  | or => .junction .or
  | not => .not

end Connective

namespace Operator

/-- Every operator, in the order of the catalog. -/
def all : List Operator :=
  [.junction .and, .junction .or, .not,
    .search .terms, .search .regexp,
    .presence .present, .presence .missing,
    .compare .equals,
    .compare (.pattern .contains), .compare (.pattern .startsWith),
    .compare (.pattern .endsWith), .compare (.pattern .regexp),
    .compare (.bound .lower false), .compare (.bound .lower true),
    .compare (.bound .upper false), .compare (.bound .upper true)]

/-- The keyword in its canonical spelling. -/
def name : Operator → String
  | junction .and => "and"
  | junction .or => "or"
  | not => "not"
  | search .terms => "freetext"
  | search .regexp => "freergxp"
  | presence .present => "exists"
  | presence .missing => "missing"
  | compare .equals => "equals"
  | compare (.pattern kind) => kind.name
  | compare (.bound .lower false) => "gt"
  | compare (.bound .lower true) => "gte"
  | compare (.bound .upper false) => "lt"
  | compare (.bound .upper true) => "lte"

/-- The operator whose keyword a word spells, ASCII letters in either case. -/
def ofName? (word : String) : Option Operator :=
  all.find? fun op => op.name.toList = word.toList.map Char.toLower

/-- How many operands an operator takes. -/
def arity : Operator → Arity
  | junction _ => .atLeastOne
  | not | search _ | presence _ => .exactly 1
  | compare _ => .exactly 2

/-- The connective that the keyword means before a group of fields or values. -/
def connective? : Operator → Option Connective
  | junction j => some j.connective
  | not => some .not
  | _ => none

/-- The operands in the words of an error message. -/
def operandWords : Operator → String
  | junction _ | not => "expression"
  | presence _ => "operand (field)"
  | search _ => "operand (value)"
  | compare _ => "operands (field|value)"

/-- Every operator is in the catalog. -/
theorem mem_all (op : Operator) : op ∈ all := by
  cases op with
  | junction j => cases j <;> decide
  | not => decide
  | search mode => cases mode <;> decide
  | presence p => cases p <;> decide
  | compare c =>
      cases c with
      | equals => decide
      | pattern kind => cases kind <;> decide
      | bound side inclusive => cases side <;> cases inclusive <;> decide

/-- No two operators share a keyword. -/
theorem name_injective {op op' : Operator} (hname : op.name = op'.name) :
    op = op' := by
  have hall : ∀ a ∈ all, ∀ b ∈ all, a.name = b.name → a = b := by
    decide
  exact hall op (mem_all op) op' (mem_all op') hname

end Operator

end FieldQuery
