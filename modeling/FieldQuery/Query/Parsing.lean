import FieldQuery.Query.Expr
import FieldQuery.Query.Lexing

/-!
# Reading expressions

**Input**: the tokens of a query and the deepest nesting allowed.

**Output**: its expression, or the first fault with its place.

**Grammar**:

* a query is one expression;
* an expression is `and` or `or` with one or more expressions in parentheses,
  `not` with one, or another operator with a bar before each of its operands;
* an operand is a literal, a keyword used as a plain word, or `and`, `or` or
  `not` with one or more operands in parentheses;
* members of parentheses are separated by group separators.

**Algorithm**: recursive descent with one token of lookahead.  A reader takes the
tokens ahead, the span of the token before them and the number of parentheses
open around them.  What it returns is ahead of where it began, so every reader
ends.  A node counts as open from its parenthesis on.
-/

namespace FieldQuery

/--
What a reader returns: a value, the tokens that remain, the span of the last
token read and the number of parentheses open there.  Fewer than `bound` tokens
remain.
-/
structure Parsed (bound : Nat) (α : Type) where
  value : α
  rest : List Token
  last : Span
  depth : Nat
  fewer : rest.length < bound

namespace Parsed

/-- The same result under a weaker bound, with another value. -/
def widen {bound bound' : Nat} {α β : Type}
    (p : Parsed bound α) (value : β) (h : bound ≤ bound') : Parsed bound' β :=
  ⟨value, p.rest, p.last, p.depth, Nat.lt_of_lt_of_le p.fewer h⟩

end Parsed

/-- The first token, if it is of the given kind. -/
def next? (kind : TokenKind) : List Token → Option Token
  | [] => none
  | t :: _ => if t.kind = kind then some t else none

/-- A fault about the stretch from one offset to another. -/
def faultWithin (fault : Fault) (start stop : Nat) : Located :=
  ⟨fault, .within ⟨start, stop⟩⟩

/-- A wrong number of operands, about the stretch from the operator to the last token read. -/
def arityFault (op : Operator) (found : Nat) (head last : Span) : Located :=
  faultWithin (.wrongArity op found) head.start (max last.stop head.stop)

/-- Reads the parenthesis that opens a node. -/
def readOpening (limit : Nat) (keyword : Connective) (depth : Nat) (last : Span) :
    (tokens : List Token) → Except Located (Parsed tokens.length Unit)
  | [] => .error ⟨.ended (.opening keyword), .onward last.start⟩
  | t :: ts =>
      if t.kind = .openParen then
        if limit < depth + 1 then .error ⟨.tooDeep limit, .within t.span⟩
        else .ok ⟨(), ts, t.span, depth + 1, by simp⟩
      else
        .error ⟨.notOpened keyword t.kind, .within t.span⟩

/-- Reads the parenthesis that closes the node begun at `head`. -/
def readClosing (keyword : Connective) (head : Span) (depth : Nat) :
    (tokens : List Token) → Except Located (Parsed tokens.length Unit)
  | [] => .error ⟨.unclosed keyword, .onward head.start⟩
  | t :: ts =>
      if t.kind = .closeParen then .ok ⟨(), ts, t.span, depth - 1, by simp⟩
      else .error ⟨.notContinued keyword t.kind, .within t.span⟩

mutual

/-- Reads a field or a value: a literal, a keyword used as a word, or a group. -/
def readOperand (limit depth : Nat) (last : Span) :
    (tokens : List Token) → Except Located (Parsed tokens.length Operand)
  | [] => .error ⟨.ended .operand, .onward last.start⟩
  | t :: ts =>
      match t.kind with
      | .literal l => .ok ⟨.literal l, ts, t.span, depth, by simp⟩
      | .operator op =>
          match op.connective?, next? .openParen ts with
          | some connective, some _ =>
              match readOpening limit connective depth t.span ts with
              | .error e => .error e
              | .ok o =>
                  have := o.fewer
                  match next? .closeParen o.rest with
                  | some close =>
                      .error (faultWithin (.emptyGroup connective) t.start close.stop)
                  | none =>
                      match readOperands limit o.depth o.last o.rest with
                      | .error e => .error e
                      | .ok xs =>
                          match readClosing connective t.span xs.depth xs.rest with
                          | .error e => .error e
                          | .ok c =>
                              have := xs.fewer
                              .ok (c.widen (.group connective xs.value)
                                (by simp only [List.length_cons]; omega))
          | _, _ => .ok ⟨.literal (.bare t.text), ts, t.span, depth, by simp⟩
      | found => .error ⟨.notOperand found, .within t.span⟩
termination_by tokens => (tokens.length, 0)

/-- Reads one or more operands with group separators between them. -/
def readOperands (limit depth : Nat) (last : Span) (tokens : List Token) :
    Except Located (Parsed tokens.length (List Operand)) :=
  match readOperand limit depth last tokens with
  | .error e => .error e
  | .ok ⟨x, [], last, depth, fewer⟩ => .ok ⟨[x], [], last, depth, fewer⟩
  | .ok ⟨x, t :: ts, last, depth, fewer⟩ =>
      if t.kind = .groupSep then
        have hts : ts.length < tokens.length := Nat.lt_of_succ_lt fewer
        match readOperands limit depth t.span ts with
        | .error e => .error e
        | .ok xs => .ok (xs.widen (x :: xs.value) (Nat.le_of_lt hts))
      else
        .ok ⟨[x], t :: ts, last, depth, fewer⟩
termination_by (tokens.length, 1)

end

/-- Reads the operands behind bars; there may be none. -/
def readBarred (limit depth : Nat) (last : Span) (tokens : List Token) :
    Except Located (Parsed (tokens.length + 1) (List Operand)) :=
  match tokens with
  | [] => .ok ⟨[], [], last, depth, by simp⟩
  | t :: ts =>
      if t.kind = .fieldSep then
        match readOperand limit depth t.span ts with
        | .error e => .error e
        | .ok x =>
            have := x.fewer
            match readBarred limit x.depth x.last x.rest with
            | .error e => .error e
            | .ok xs =>
                .ok (xs.widen (x.value :: xs.value) (by simp only [List.length_cons]; omega))
      else
        .ok ⟨[], t :: ts, last, depth, by simp⟩
termination_by tokens.length
decreasing_by
  simp only [List.length_cons]
  omega

/-- The expression of an operator with its operands, if their number is right. -/
def Operator.apply? : Operator → List Operand → Option Expr
  | .presence p, [field] => some (.presence p field)
  | .search mode, [value] => some (.search mode value)
  | .compare c, [field, value] => some (.compare c field value)
  | _, _ => none

/-- Reads what follows an operator that takes its operands behind bars. -/
def readOperation (limit : Nat) (op : Operator) (head : Span) (depth : Nat)
    (tokens : List Token) : Except Located (Parsed (tokens.length + 1) Expr) :=
  match readBarred limit depth head tokens with
  | .error e => .error e
  | .ok xs =>
      match next? .openParen xs.rest with
      | some t => .error ⟨.parenthesised op, .within t.span⟩
      | none =>
          match op.apply? xs.value with
          | some e => .ok (xs.widen e (Nat.le_refl _))
          | none => .error (arityFault op xs.value.length head xs.last)

/-- Why a literal cannot stand for an expression, inside `holder` if it is inside a node. -/
def literalFault (holder : Option Connective) (l : Literal) (span : Span)
    (ahead : List Token) : Located :=
  let barred := (next? .fieldSep ahead).isSome
  if !l.quoted && (barred || holder.isNone) then
    ⟨.unknownOperator l.raw, .within span⟩
  else
    match holder with
    | some connective => ⟨.misplacedLiteral connective l, .within span⟩
    | none => ⟨.literalAtHead l, .within span⟩

/-- The expression of a node with its children: `not` takes one, the others any number. -/
def Connective.apply? : Connective → List Expr → Option Expr
  | .and, children => some (.junction .and children)
  | .or, children => some (.junction .or children)
  | .not, [child] => some (.not child)
  | .not, _ => none

mutual

/-- Reads an expression; `holder` is the node around it, if there is one. -/
def readExpr (limit : Nat) (holder : Option Connective) (depth : Nat) (last : Span) :
    (tokens : List Token) → Except Located (Parsed tokens.length Expr)
  | [] => .error ⟨.ended .expression, .onward last.start⟩
  | t :: ts =>
      match t.kind with
      | .operator op =>
          match op.connective? with
          | some keyword =>
              match readOpening limit keyword depth t.span ts with
              | .error e => .error e
              | .ok o =>
                  have := o.fewer
                  match next? .closeParen o.rest with
                  | some close => .error (arityFault op 0 t.span close.span)
                  | none =>
                      match readExprs limit keyword o.depth o.last o.rest with
                      | .error e => .error e
                      | .ok es =>
                          match keyword.apply? es.value with
                          | none =>
                              let last := ((next? .closeParen es.rest).map Token.span).getD es.last
                              .error (arityFault op es.value.length t.span last)
                          | some expr =>
                              match readClosing keyword t.span es.depth es.rest with
                              | .error e => .error e
                              | .ok c =>
                                  have := es.fewer
                                  .ok (c.widen expr (by simp only [List.length_cons]; omega))
          | none => readOperation limit op t.span depth ts
      | .literal l => .error (literalFault holder l t.span ts)
      | found => .error ⟨.notExpression found, .within t.span⟩
termination_by tokens => (tokens.length, 0)

/-- Reads one or more expressions with group separators between them. -/
def readExprs (limit : Nat) (holder : Connective) (depth : Nat) (last : Span)
    (tokens : List Token) : Except Located (Parsed tokens.length (List Expr)) :=
  match readExpr limit (some holder) depth last tokens with
  | .error e => .error e
  | .ok ⟨x, [], last, depth, fewer⟩ => .ok ⟨[x], [], last, depth, fewer⟩
  | .ok ⟨x, t :: ts, last, depth, fewer⟩ =>
      if t.kind = .groupSep then
        have hts : ts.length < tokens.length := Nat.lt_of_succ_lt fewer
        match readExprs limit holder depth t.span ts with
        | .error e => .error e
        | .ok xs => .ok (xs.widen (x :: xs.value) (Nat.le_of_lt hts))
      else
        .ok ⟨[x], t :: ts, last, depth, fewer⟩
termination_by (tokens.length, 1)

end

/-- Reads the tokens of a whole query. -/
def readTokens (limit : Nat) : List Token → Except Located Expr
  | [] => .error ⟨.emptyQuery, .onward 0⟩
  | tokens =>
      match readExpr limit none 0 ⟨0, 0⟩ tokens with
      | .error e => .error e
      | .ok p =>
          match p.rest with
          | [] => .ok p.value
          | t :: _ => .error ⟨.trailing t.kind, .within t.span⟩

/-- The expression of a query, or its first fault. -/
def read (limits : Limits) (query : String) : Except Located Expr :=
  match lex limits query with
  | .error e => .error e
  | .ok tokens => readTokens limits.maxDepth tokens

/-- The expression of a query, or its first fault as a syntax error. -/
def parse (limits : Limits) (query : String) : Except SyntaxError Expr :=
  (read limits query).mapError (Located.toError query)

end FieldQuery
