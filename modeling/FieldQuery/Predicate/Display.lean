import FieldQuery.Json
import FieldQuery.Predicate.Basic
import FieldQuery.Text.Showing

/-!
# How predicates are shown

For people a predicate is an outline with one line for each atom and each Boolean
node.  For programs it is a JSON value whose `type` member names the case.
-/

namespace FieldQuery

namespace Value

/-- A value for interchange: a number or a string. -/
def toJson : Value → Json
  | integer n => .integer n
  | float x => .float x
  | string s => .string s

end Value

namespace Bound

/-- The sign that stands between a bound and what it bounds. -/
def sign (b : Bound) : String :=
  if b.inclusive then "<=" else "<"

/-- A bound for interchange. -/
def toJson (b : Bound) : Json :=
  .object [("value", b.value.toJson), ("inclusive", .bool b.inclusive)]

/-- The member of an object for a bound that may be absent. -/
def members (name : String) : Option Bound → List (String × Json)
  | none => []
  | some b => [(name, b.toJson)]

end Bound

namespace SearchMode

/-- The name of a text mode. -/
def name : SearchMode → String
  | terms => "terms"
  | regexp => "regexp"

end SearchMode

namespace Atom

/-- An atom in one line. -/
def display : Atom → String
  | equals field value => "Eq(" ++ field ++ " = " ++ value.display ++ ")"
  | range field lower upper =>
      let before :=
        match lower with
        | some b => b.value.display ++ " " ++ b.sign ++ " "
        | none => ""
      let behind :=
        match upper with
        | some b => " " ++ b.sign ++ " " ++ b.value.display
        | none => ""
      "Range(" ++ before ++ field ++ behind ++ ")"
  | present field => "Exists(" ++ field ++ ")"
  | pattern field kind text =>
      "Pattern(" ++ field ++ " " ++ kind.name ++ " " ++ Text.quoted text ++ ")"
  | freeText text .terms => "FreeText(" ++ Text.quoted text ++ ")"
  | freeText text .regexp => "FreeText(regexp " ++ Text.quoted text ++ ")"

/-- An atom for interchange. -/
def toJson : Atom → Json
  | equals field value =>
      .object [("type", .string "eq"), ("field", .string field), ("value", value.toJson)]
  | range field lower upper =>
      .object ([("type", .string "range"), ("field", .string field)]
        ++ Bound.members "lower" lower ++ Bound.members "upper" upper)
  | present field =>
      .object [("type", .string "exists"), ("field", .string field)]
  | pattern field kind text =>
      .object [("type", .string "pattern"), ("field", .string field),
        ("kind", .string kind.name), ("text", .string text)]
  | freeText text mode =>
      .object [("type", .string "free_text"), ("text", .string text),
        ("mode", .string mode.name)]

end Atom

namespace Predicate

mutual

/-- The outline of a predicate. -/
def outline : Predicate → Outline
  | atom a => .node a.display []
  | and children => .node "And" (outlines children)
  | or children => .node "Or" (outlines children)
  | not child => .node "Not" [outline child]

/-- The outlines of several predicates. -/
def outlines : List Predicate → List Outline
  | [] => []
  | p :: ps => outline p :: outlines ps

end

/-- The outline as text. -/
def display (p : Predicate) : String :=
  p.outline.write

mutual

/-- A predicate for interchange. -/
def toJson : Predicate → Json
  | atom a => a.toJson
  | and children =>
      .object [("type", .string "and"), ("children", .array (toJsons children))]
  | or children =>
      .object [("type", .string "or"), ("children", .array (toJsons children))]
  | not child =>
      .object [("type", .string "not"), ("child", toJson child)]

/-- Several predicates for interchange. -/
def toJsons : List Predicate → List Json
  | [] => []
  | p :: ps => toJson p :: toJsons ps

end

end Predicate

end FieldQuery
