import FieldQuery.Query.Fault

/-!
# Syntax errors

A syntax error carries the query and the fragment it is about, so that it can be
shown to whoever wrote the query: the message, the query itself, a caret below
the fragment's first character, and a hint where one helps.
-/

namespace FieldQuery

/-- A syntax error as it is shown. -/
structure SyntaxError where
  kind : ErrorKind
  message : String
  /-- The offending fragment. -/
  fragment : String
  /-- The byte offset of the fragment. -/
  position : Nat
  query : String
deriving DecidableEq, Repr

namespace Located

/-- The first byte of a located fault. -/
def position (e : Located) : Nat :=
  match e.extent with
  | .within span => span.start
  | .onward start => start

/-- The fragment of the query that a located fault is about. -/
def fragment (query : List Char) (e : Located) : List Char :=
  match e.extent with
  | .within span => Text.slice query span.start span.stop
  | .onward start => Text.slice query start (Text.byteLength query)

/-- A located fault joined with the query it was found in. -/
def toError (query : String) (e : Located) : SyntaxError where
  kind := e.fault.kind
  message := e.fault.message
  fragment := String.ofList (e.fragment query.toList)
  position := e.position
  query := query

end Located

namespace SyntaxError

/-- Whether one list of characters occurs in another. -/
def occursIn (part : List Char) : List Char → Bool
  | [] => part.isEmpty
  | c :: cs => part.isPrefixOf (c :: cs) || occursIn part cs

/-- What to try instead, for the mistakes that are made most. -/
def hint? (e : SyntaxError) : Option String :=
  match e.kind with
  | .unterminatedQuote => some "Add a closing quote (\") to complete the literal"
  | .unknownOperator =>
      some ("Expressions start with and, or, not, exists, missing, freetext, freergxp, "
        ++ "equals, contains, startswith, endswith, regexp, gt, gte, lt or lte")
  | .arity =>
      if occursIn "'not'".toList e.message.toList then
        some "Wrap several expressions in and(...) or or(...) before negating them"
      else
        none
  | .misplacedGroup =>
      some "Groups like or(a‖b) may only replace a field or a value, e.g. equals|f|or(a‖b)"
  | _ => none

/--
The number of characters before the caret: those before the position, or the
position itself when it is inside a character.  A position beyond the end counts
as the end.
-/
def column (e : SyntaxError) : Nat :=
  let query := e.query.toList
  let clamped := min e.position (Text.byteLength query)
  match Text.splitAt? clamped query with
  | some (before, _) => before.length
  | none => clamped

/-- The whole text of a syntax error. -/
def display (e : SyntaxError) : String :=
  "query syntax error: " ++ e.message ++ "\n  " ++ e.query ++ "\n  "
    ++ String.ofList (List.replicate e.column ' ') ++ "^"
    ++ (match e.hint? with
      | some hint => "\nhint: " ++ hint
      | none => "")

end SyntaxError

end FieldQuery
