import FieldQuery.Query.Operator
import FieldQuery.Text.Characters
import FieldQuery.Value

/-!
# Tokens of a query

A token is a piece of the query's text with its place and its meaning.  Two
separators are told apart: the double bar, which a comma may replace, stands
between the members of a group, and the single bar stands before an operand.
-/

namespace FieldQuery

/-- A field name or a value as the query wrote it. -/
structure Literal where
  raw : String
  value : Value
  quoted : Bool
deriving DecidableEq, Repr

namespace Literal

/-- A bare word, typed by its spelling. -/
def bare (raw : String) : Literal :=
  ⟨raw, Value.ofWord raw, false⟩

/-- A quoted literal, always a text. -/
def ofQuoted (raw : String) : Literal :=
  ⟨raw, .string raw, true⟩

/-- How a character stands in the canonical form of a quoted literal. -/
def escapeChar (c : Char) : List Char :=
  if c = '\\' then ['\\', '\\']
  else if c = '"' then ['\\', '"']
  else [c]

/-- The canonical text of a literal. -/
def canonical (l : Literal) : String :=
  if l.quoted then
    String.ofList ('"' :: l.raw.toList.flatMap escapeChar ++ ['"'])
  else
    l.raw

end Literal

/-- What a token means. -/
inductive TokenKind where
  | operator (op : Operator)
  | literal (l : Literal)
  | openParen
  | closeParen
  | groupSep
  | fieldSep
deriving DecidableEq, Repr

namespace TokenKind

/-- The token in the words of an error message. -/
def describe : TokenKind → String
  | operator op => "operator '" ++ op.name ++ "'"
  | literal l => "literal " ++ l.canonical
  | openParen => "'('"
  | closeParen => "')'"
  | groupSep => "group separator '‖'"
  | fieldSep => "field separator '|'"

end TokenKind

/-- A stretch of the query between two byte offsets. -/
structure Span where
  start : Nat
  stop : Nat
deriving DecidableEq, Repr

/-- A token: what it means, how it is spelt and where it begins. -/
structure Token where
  kind : TokenKind
  text : String
  start : Nat
deriving DecidableEq, Repr

namespace Token

/-- The byte offset just behind a token. -/
def stop (t : Token) : Nat :=
  t.start + t.text.utf8ByteSize

/-- The place of a token. -/
def span (t : Token) : Span :=
  ⟨t.start, t.stop⟩

end Token

end FieldQuery
