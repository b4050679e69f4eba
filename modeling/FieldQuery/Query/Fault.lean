import FieldQuery.Query.Token

/-!
# What can be wrong with a query

A fault is a cause; its category, its wording and its hint follow from the
cause.  The reader reports a fault together with the stretch of the query that
it is about, and joined with the query text this is a syntax error.
-/

namespace FieldQuery

/-- The categories of syntax errors. -/
inductive ErrorKind where
  | emptyQuery
  | unknownOperator
  | unterminatedQuote
  | unexpectedToken
  | unexpectedEnd
  | arity
  | misplacedGroup
  | limitExceeded
deriving DecidableEq, Repr

/-- What the reader was looking for when the query ended. -/
inductive Wanted where
  | expression
  | operand
  | opening (keyword : Connective)
deriving DecidableEq, Repr

namespace Wanted

/-- The missing part in the words of an error message. -/
def describe : Wanted → String
  | expression => "an expression"
  | operand => "a field or value"
  | opening keyword => "'(' after '" ++ keyword.name ++ "'"

end Wanted

/-- The cause of a syntax error. -/
inductive Fault where
  /-- The query holds no token. -/
  | emptyQuery
  /-- A quoted literal is never closed. -/
  | unterminatedQuote
  /-- The query has more tokens than allowed. -/
  | tooManyTokens (limit : Nat)
  /-- Parentheses are nested more deeply than allowed. -/
  | tooDeep (limit : Nat)
  /-- A word before an operand, or a lone word, is no operator. -/
  | unknownOperator (word : String)
  /-- A literal stands among expressions. -/
  | misplacedLiteral (holder : Connective) (l : Literal)
  /-- A quoted literal is all there is where an operator belongs. -/
  | literalAtHead (l : Literal)
  /-- A separator or parenthesis stands where an expression belongs. -/
  | notExpression (found : TokenKind)
  /-- A separator or parenthesis stands where a field or value belongs. -/
  | notOperand (found : TokenKind)
  /-- A connective is not followed by a parenthesis. -/
  | notOpened (keyword : Connective) (found : TokenKind)
  /-- Something other than a separator or a closing parenthesis follows a member. -/
  | notContinued (keyword : Connective) (found : TokenKind)
  /-- An operator that takes operands behind bars is followed by a parenthesis. -/
  | parenthesised (op : Operator)
  /-- Something follows the end of the whole expression. -/
  | trailing (found : TokenKind)
  /-- The query ends where something is still wanted. -/
  | ended (wanted : Wanted)
  /-- The query ends inside a parenthesised node. -/
  | unclosed (keyword : Connective)
  /-- An operator has a wrong number of operands. -/
  | wrongArity (op : Operator) (found : Nat)
  /-- A group of fields or values has no member. -/
  | emptyGroup (keyword : Connective)
deriving DecidableEq, Repr

namespace Fault

/-- The category of a fault. -/
def kind : Fault → ErrorKind
  | emptyQuery => .emptyQuery
  | unterminatedQuote => .unterminatedQuote
  | tooManyTokens _ | tooDeep _ => .limitExceeded
  | unknownOperator _ => .unknownOperator
  | misplacedLiteral _ _ => .misplacedGroup
  | literalAtHead _ | notExpression _ | notOperand _ | notOpened _ _ | notContinued _ _
  | parenthesised _ | trailing _ => .unexpectedToken
  | ended _ | unclosed _ => .unexpectedEnd
  | wrongArity _ _ | emptyGroup _ => .arity

/-- The wording of a fault. -/
def message : Fault → String
  | emptyQuery => "empty query"
  | unterminatedQuote => "unterminated quoted literal"
  | tooManyTokens limit => "query has more than " ++ limit.repr ++ " tokens"
  | tooDeep limit => "nesting exceeds the maximum depth of " ++ limit.repr
  | unknownOperator word => "unknown operator '" ++ word ++ "'"
  | misplacedLiteral holder l =>
      "'" ++ holder.name ++ "(...)' holds expressions, found " ++ (TokenKind.literal l).describe
        ++ "; plain values can only be grouped in a field or value position"
  | literalAtHead l => "expected an operator, found " ++ (TokenKind.literal l).describe
  | notExpression found => "expected an expression, found " ++ found.describe
  | notOperand found => "expected a field or value, found " ++ found.describe
  | notOpened keyword found =>
      "'" ++ keyword.name ++ "' must be followed by '(', found " ++ found.describe
  | notContinued keyword found =>
      "expected '‖' or ')' to continue '" ++ keyword.name ++ "(...)', found " ++ found.describe
  | parenthesised op =>
      "'" ++ op.name ++ "' takes '|'-separated operands, not a parenthesised list"
  | trailing found => "unexpected " ++ found.describe ++ " after the end of the expression"
  | ended wanted => "unexpected end of query: expected " ++ wanted.describe
  | unclosed keyword => "unclosed '" ++ keyword.name ++ "(': expected ')'"
  | wrongArity op found =>
      "'" ++ op.name ++ "' takes " ++ op.arity.describe ++ " " ++ op.operandWords
        ++ ", found " ++ found.repr
  | emptyGroup keyword => "'" ++ keyword.name ++ "' group takes at least 1 item, found 0"

end Fault

/-- The stretch of a query that a fault is about: a span, or everything from an offset on. -/
inductive Extent where
  | within (span : Span)
  | onward (start : Nat)
deriving DecidableEq, Repr

/-- A fault and where it is. -/
structure Located where
  fault : Fault
  extent : Extent
deriving DecidableEq, Repr

end FieldQuery
