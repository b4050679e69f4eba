import FieldQuery.Query.Expr

/-!
# The grammar of queries

The sequences of tokens that are expressions, without a word about how they are
read.

**Grammar**:

* a logical node is `and` or `or` with one or more expressions in parentheses;
* a negation is `not` with one expression in parentheses;
* an operation is another operator with one bar and operand for a field or a
  value operator, two for a comparison;
* an operand is a literal, a keyword or a group;
* a group is `and`, `or` or `not` with one or more operands in parentheses;
* members of parentheses are separated by group separators.

A relation `R tokens x rest` says that `tokens` begin with an `x` and that `rest`
follows it.  What follows decides what a connective is in the place of an operand:
it is the head of a group exactly when a parenthesis opens directly behind it.

**Results.**

* `ExprDerives.length_eq`: an expression says how many tokens it has;
* `ExprDerives.gap?_eq_none`: nothing in it is left empty;
* `ExprDerives.literals_of_tokens`: its literals are the tokens' own.
-/

namespace FieldQuery

/-- Whether the first token is of the given kind. -/
def StartsWith (kind : TokenKind) : List Token → Prop
  | [] => False
  | t :: _ => t.kind = kind

@[simp] theorem not_startsWith_nil (kind : TokenKind) :
    ¬ StartsWith kind [] := by
  exact id

@[simp] theorem startsWith_cons
    (kind : TokenKind) (t : Token) (ts : List Token) :
    StartsWith kind (t :: ts) ↔ t.kind = kind := by
  rfl

theorem StartsWith.exists_cons
    {kind : TokenKind} {tokens : List Token} (hstarts : StartsWith kind tokens) :
    ∃ t ts, tokens = t :: ts ∧ t.kind = kind := by
  cases tokens with
  | nil =>
      exact hstarts.elim
  | cons t ts =>
      exact ⟨t, ts, rfl, hstarts⟩

mutual

/-- The tokens begin with an operand. -/
inductive OperandDerives : List Token → Operand → List Token → Prop
  | literal
      {t : Token} {rest : List Token} {l : Literal}
      (hkind : t.kind = .literal l) :
      OperandDerives (t :: rest) (.literal l) rest
  | keyword
      {t : Token} {rest : List Token} {op : Operator}
      (hkind : t.kind = .operator op)
      (hplain : op.connective? = none ∨ ¬ StartsWith .openParen rest) :
      OperandDerives (t :: rest) (.literal (.bare t.text)) rest
  | group
      {head opening closing : Token} {inner rest : List Token}
      {op : Operator} {connective : Connective} {members : List Operand}
      (hhead : head.kind = .operator op)
      (hconnective : op.connective? = some connective)
      (hopening : opening.kind = .openParen)
      (hmembers : OperandsDerive inner members (closing :: rest))
      (hclosing : closing.kind = .closeParen) :
      OperandDerives (head :: opening :: inner) (.group connective members) rest

/-- The tokens begin with one or more operands, separated by group separators. -/
inductive OperandsDerive : List Token → List Operand → List Token → Prop
  | one
      {tokens rest : List Token} {x : Operand}
      (hx : OperandDerives tokens x rest) :
      OperandsDerive tokens [x] rest
  | more
      {tokens behind rest : List Token} {separator : Token}
      {x : Operand} {xs : List Operand}
      (hx : OperandDerives tokens x (separator :: behind))
      (hseparator : separator.kind = .groupSep)
      (hxs : OperandsDerive behind xs rest) :
      OperandsDerive tokens (x :: xs) rest

end

mutual

/-- The tokens begin with an expression. -/
inductive ExprDerives : List Token → Expr → List Token → Prop
  | logical
      {head opening closing : Token} {inner rest : List Token}
      {j : Junction} {children : List Expr}
      (hhead : head.kind = .operator (.junction j))
      (hopening : opening.kind = .openParen)
      (hchildren : ExprsDerive inner children (closing :: rest))
      (hclosing : closing.kind = .closeParen) :
      ExprDerives (head :: opening :: inner) (.junction j children) rest
  | negation
      {head opening closing : Token} {inner rest : List Token} {child : Expr}
      (hhead : head.kind = .operator .not)
      (hopening : opening.kind = .openParen)
      (hchild : ExprDerives inner child (closing :: rest))
      (hclosing : closing.kind = .closeParen) :
      ExprDerives (head :: opening :: inner) (.not child) rest
  | presence
      {head bar : Token} {tokens rest : List Token}
      {p : Presence} {field : Operand}
      (hhead : head.kind = .operator (.presence p))
      (hbar : bar.kind = .fieldSep)
      (hfield : OperandDerives tokens field rest) :
      ExprDerives (head :: bar :: tokens) (.presence p field) rest
  | search
      {head bar : Token} {tokens rest : List Token}
      {mode : SearchMode} {value : Operand}
      (hhead : head.kind = .operator (.search mode))
      (hbar : bar.kind = .fieldSep)
      (hvalue : OperandDerives tokens value rest) :
      ExprDerives (head :: bar :: tokens) (.search mode value) rest
  | compare
      {head bar bar' : Token} {tokens behind rest : List Token}
      {c : Comparison} {field value : Operand}
      (hhead : head.kind = .operator (.compare c))
      (hbar : bar.kind = .fieldSep)
      (hfield : OperandDerives tokens field (bar' :: behind))
      (hbar' : bar'.kind = .fieldSep)
      (hvalue : OperandDerives behind value rest) :
      ExprDerives (head :: bar :: tokens) (.compare c field value) rest

/-- The tokens begin with one or more expressions, separated by group separators. -/
inductive ExprsDerive : List Token → List Expr → List Token → Prop
  | one
      {tokens rest : List Token} {e : Expr}
      (he : ExprDerives tokens e rest) :
      ExprsDerive tokens [e] rest
  | more
      {tokens behind rest : List Token} {separator : Token}
      {e : Expr} {es : List Expr}
      (he : ExprDerives tokens e (separator :: behind))
      (hseparator : separator.kind = .groupSep)
      (hes : ExprsDerive behind es rest) :
      ExprsDerive tokens (e :: es) rest

end

/-- The tokens as a whole are an expression. -/
def Derives (tokens : List Token) (e : Expr) : Prop :=
  ExprDerives tokens e []

section Size

mutual

/-- The number of tokens of an operand: keywords, literals, parentheses and separators. -/
def Operand.tokenCount : Operand → Nat
  | .literal _ => 1
  | .group _ members => 3 + Operand.tokenCountOf members

/-- The number of tokens of several operands with the separators between them. -/
def Operand.tokenCountOf : List Operand → Nat
  | [] => 0
  | [x] => x.tokenCount
  | x :: xs => x.tokenCount + 1 + Operand.tokenCountOf xs

end

mutual

/-- The number of tokens of an expression: keywords, literals, parentheses and separators. -/
def Expr.tokenCount : Expr → Nat
  | .junction _ children => 3 + Expr.tokenCountOf children
  | .not child => 3 + child.tokenCount
  | .presence _ field => 2 + field.tokenCount
  | .search _ value => 2 + value.tokenCount
  | .compare _ field value => 3 + field.tokenCount + value.tokenCount

/-- The number of tokens of several expressions with the separators between them. -/
def Expr.tokenCountOf : List Expr → Nat
  | [] => 0
  | [e] => e.tokenCount
  | e :: es => e.tokenCount + 1 + Expr.tokenCountOf es

end

theorem Operand.tokenCountOf_cons
    (x : Operand) {xs : List Operand} (hxs : xs ≠ []) :
    tokenCountOf (x :: xs) = x.tokenCount + 1 + tokenCountOf xs := by
  cases xs with
  | nil =>
      exact absurd rfl hxs
  | cons y ys =>
      rfl

theorem Expr.tokenCountOf_cons
    (e : Expr) {es : List Expr} (hes : es ≠ []) :
    tokenCountOf (e :: es) = e.tokenCount + 1 + tokenCountOf es := by
  cases es with
  | nil =>
      exact absurd rfl hes
  | cons f fs =>
      rfl

mutual

/-- Every parenthesis that is open is a token. -/
theorem Operand.depth_le_tokenCount :
    ∀ x : Operand, x.depth ≤ x.tokenCount
  | .literal _ => by
      simp [depth, tokenCount]
  | .group _ members => by
      have hmembers := Operand.depthOf_le_tokenCountOf members
      simp only [depth, tokenCount]
      omega

theorem Operand.depthOf_le_tokenCountOf :
    ∀ xs : List Operand, depthOf xs ≤ tokenCountOf xs
  | [] => by
      simp [depthOf]
  | [x] => by
      have hx := x.depth_le_tokenCount
      simp only [depthOf, tokenCountOf]
      omega
  | x :: y :: ys => by
      have hx := x.depth_le_tokenCount
      have hys := Operand.depthOf_le_tokenCountOf (y :: ys)
      rw [tokenCountOf_cons x (by simp), depthOf]
      omega

end

mutual

/-- Every parenthesis that is open is a token. -/
theorem Expr.depth_le_tokenCount :
    ∀ e : Expr, e.depth ≤ e.tokenCount
  | .junction _ children => by
      have hchildren := Expr.depthOf_le_tokenCountOf children
      simp only [depth, tokenCount]
      omega
  | .not child => by
      have hchild := child.depth_le_tokenCount
      simp only [depth, tokenCount]
      omega
  | .presence _ field => by
      have hfield := field.depth_le_tokenCount
      simp only [depth, tokenCount]
      omega
  | .search _ value => by
      have hvalue := value.depth_le_tokenCount
      simp only [depth, tokenCount]
      omega
  | .compare _ field value => by
      have hfield := field.depth_le_tokenCount
      have hvalue := value.depth_le_tokenCount
      simp only [depth, tokenCount]
      omega

theorem Expr.depthOf_le_tokenCountOf :
    ∀ es : List Expr, depthOf es ≤ tokenCountOf es
  | [] => by
      simp [depthOf]
  | [e] => by
      have he := e.depth_le_tokenCount
      simp only [depthOf, tokenCountOf]
      omega
  | e :: f :: fs => by
      have he := e.depth_le_tokenCount
      have hfs := Expr.depthOf_le_tokenCountOf (f :: fs)
      rw [tokenCountOf_cons e (by simp), depthOf]
      omega

end

end Size

section Derivations

theorem OperandsDerive.ne_nil
    {tokens rest : List Token} {xs : List Operand}
    (hxs : OperandsDerive tokens xs rest) :
    xs ≠ [] := by
  cases hxs <;> simp

theorem ExprsDerive.ne_nil
    {tokens rest : List Token} {es : List Expr}
    (hes : ExprsDerive tokens es rest) :
    es ≠ [] := by
  cases hes <;> simp

mutual

/-- An operand takes as many tokens as it counts. -/
theorem OperandDerives.length_eq
    {tokens rest : List Token} {x : Operand} :
    OperandDerives tokens x rest →
      tokens.length = x.tokenCount + rest.length
  | .literal _ => by
      simp [Operand.tokenCount, Nat.add_comm]
  | .keyword _ _ => by
      simp [Operand.tokenCount, Nat.add_comm]
  | .group _ _ _ hmembers _ => by
      have hinner := hmembers.length_eq
      simp only [List.length_cons, Operand.tokenCount] at hinner ⊢
      omega

theorem OperandsDerive.length_eq
    {tokens rest : List Token} {xs : List Operand} :
    OperandsDerive tokens xs rest →
      tokens.length = Operand.tokenCountOf xs + rest.length
  | .one hx => by
      exact hx.length_eq
  | .more hx _ hxs => by
      have hfirst := hx.length_eq
      have hmore := hxs.length_eq
      rw [Operand.tokenCountOf_cons _ hxs.ne_nil]
      simp only [List.length_cons] at hfirst
      omega

end

mutual

/-- An expression takes as many tokens as it counts. -/
theorem ExprDerives.length_eq
    {tokens rest : List Token} {e : Expr} :
    ExprDerives tokens e rest →
      tokens.length = e.tokenCount + rest.length
  | .logical _ _ hchildren _ => by
      have hinner := hchildren.length_eq
      simp only [List.length_cons, Expr.tokenCount] at hinner ⊢
      omega
  | .negation _ _ hchild _ => by
      have hinner := hchild.length_eq
      simp only [List.length_cons, Expr.tokenCount] at hinner ⊢
      omega
  | .presence _ _ hfield => by
      have hbehind := hfield.length_eq
      simp only [List.length_cons, Expr.tokenCount]
      omega
  | .search _ _ hvalue => by
      have hbehind := hvalue.length_eq
      simp only [List.length_cons, Expr.tokenCount]
      omega
  | .compare _ _ hfield _ hvalue => by
      have hfirst := hfield.length_eq
      have hsecond := hvalue.length_eq
      simp only [List.length_cons, Expr.tokenCount] at hfirst ⊢
      omega

theorem ExprsDerive.length_eq
    {tokens rest : List Token} {es : List Expr} :
    ExprsDerive tokens es rest →
      tokens.length = Expr.tokenCountOf es + rest.length
  | .one he => by
      exact he.length_eq
  | .more he _ hes => by
      have hfirst := he.length_eq
      have hmore := hes.length_eq
      rw [Expr.tokenCountOf_cons _ hes.ne_nil]
      simp only [List.length_cons] at hfirst
      omega

end

theorem Operand.gap?_group
    (connective : Connective) {members : List Operand}
    (hmembers : members ≠ []) :
    (Operand.group connective members).gap? = gapIn? members := by
  cases members with
  | nil =>
      exact absurd rfl hmembers
  | cons x xs =>
      rfl

theorem Expr.gap?_junction
    (j : Junction) {children : List Expr}
    (hchildren : children ≠ []) :
    (Expr.junction j children).gap? = gapIn? children := by
  cases children with
  | nil =>
      exact absurd rfl hchildren
  | cons e es =>
      rfl

mutual

/-- Every group of a derived operand has a member. -/
theorem OperandDerives.gap?_eq_none
    {tokens rest : List Token} {x : Operand} :
    OperandDerives tokens x rest → x.gap? = none
  | .literal _ => by
      rfl
  | .keyword _ _ => by
      rfl
  | .group _ _ _ hmembers _ => by
      rw [Operand.gap?_group _ hmembers.ne_nil]
      exact hmembers.gapIn?_eq_none

theorem OperandsDerive.gapIn?_eq_none
    {tokens rest : List Token} {xs : List Operand} :
    OperandsDerive tokens xs rest → Operand.gapIn? xs = none
  | .one hx => by
      simp [Operand.gapIn?, hx.gap?_eq_none]
  | .more hx _ hxs => by
      simp [Operand.gapIn?, hx.gap?_eq_none, hxs.gapIn?_eq_none]

end

mutual

/-- Every node of a derived expression has a child and every group a member. -/
theorem ExprDerives.gap?_eq_none
    {tokens rest : List Token} {e : Expr} :
    ExprDerives tokens e rest → e.gap? = none
  | .logical _ _ hchildren _ => by
      rw [Expr.gap?_junction _ hchildren.ne_nil]
      exact hchildren.gapIn?_eq_none
  | .negation _ _ hchild _ => by
      exact hchild.gap?_eq_none
  | .presence _ _ hfield => by
      exact hfield.gap?_eq_none
  | .search _ _ hvalue => by
      exact hvalue.gap?_eq_none
  | .compare _ _ hfield _ hvalue => by
      simp [Expr.gap?, hfield.gap?_eq_none, hvalue.gap?_eq_none]

theorem ExprsDerive.gapIn?_eq_none
    {tokens rest : List Token} {es : List Expr} :
    ExprsDerive tokens es rest → Expr.gapIn? es = none
  | .one he => by
      simp [Expr.gapIn?, he.gap?_eq_none]
  | .more he _ hes => by
      simp [Expr.gapIn?, he.gap?_eq_none, hes.gapIn?_eq_none]

end

end Derivations

section Literals

mutual

/-- The literals of an expression from left to right. -/
def Expr.literals : Expr → List Literal
  | .junction _ children => Expr.literalsOf children
  | .not child => child.literals
  | .presence _ field => field.literals
  | .search _ value => value.literals
  | .compare _ field value => field.literals ++ value.literals

/-- The literals of several expressions from left to right. -/
def Expr.literalsOf : List Expr → List Literal
  | [] => []
  | e :: es => e.literals ++ Expr.literalsOf es

end

/-- A literal is what a token stands for: its own, or its spelling when it is a keyword. -/
def Literal.ReadFrom (l : Literal) (t : Token) : Prop :=
  t.kind = .literal l ∨ ∃ op, t.kind = .operator op ∧ l = .bare t.text

theorem suffix_cons_cons
    (t u : Token) (ts : List Token) :
    ts <:+ t :: u :: ts := by
  exact ⟨[t, u], rfl⟩

/-- Literals that come from tokens behind a point also come from all the tokens. -/
theorem readFrom_of_suffix
    {tokens behind : List Token} {ls : List Literal}
    (hsuffix : behind <:+ tokens)
    (hls : ∀ l ∈ ls, ∃ t ∈ behind, l.ReadFrom t) :
    ∀ l ∈ ls, ∃ t ∈ tokens, l.ReadFrom t := by
  intro l hl
  obtain ⟨t, ht, hread⟩ := hls l hl
  exact ⟨t, hsuffix.subset ht, hread⟩

mutual

/-- What follows an operand is the end of the tokens. -/
theorem OperandDerives.suffix
    {tokens rest : List Token} {x : Operand} :
    OperandDerives tokens x rest → rest <:+ tokens
  | .literal _ => List.suffix_cons _ _
  | .keyword _ _ => List.suffix_cons _ _
  | .group _ _ _ hmembers _ =>
      ((List.suffix_cons _ _).trans hmembers.suffix).trans
        (suffix_cons_cons _ _ _)

theorem OperandsDerive.suffix
    {tokens rest : List Token} {xs : List Operand} :
    OperandsDerive tokens xs rest → rest <:+ tokens
  | .one hx => hx.suffix
  | .more hx _ hxs =>
      (hxs.suffix.trans (List.suffix_cons _ _)).trans hx.suffix

end

mutual

/-- What follows an expression is the end of the tokens. -/
theorem ExprDerives.suffix
    {tokens rest : List Token} {e : Expr} :
    ExprDerives tokens e rest → rest <:+ tokens
  | .logical _ _ hchildren _ =>
      ((List.suffix_cons _ _).trans hchildren.suffix).trans
        (suffix_cons_cons _ _ _)
  | .negation _ _ hchild _ =>
      ((List.suffix_cons _ _).trans hchild.suffix).trans
        (suffix_cons_cons _ _ _)
  | .presence _ _ hfield =>
      hfield.suffix.trans
        (suffix_cons_cons _ _ _)
  | .search _ _ hvalue =>
      hvalue.suffix.trans
        (suffix_cons_cons _ _ _)
  | .compare _ _ hfield _ hvalue =>
      ((hvalue.suffix.trans (List.suffix_cons _ _)).trans hfield.suffix).trans
        (suffix_cons_cons _ _ _)

theorem ExprsDerive.suffix
    {tokens rest : List Token} {es : List Expr} :
    ExprsDerive tokens es rest → rest <:+ tokens
  | .one he => he.suffix
  | .more he _ hes =>
      (hes.suffix.trans (List.suffix_cons _ _)).trans he.suffix

end

mutual

/-- Every literal of a derived operand is what one of the tokens stands for. -/
theorem OperandDerives.literals_of_tokens
    {tokens rest : List Token} {x : Operand} :
    OperandDerives tokens x rest →
      ∀ l ∈ x.literals, ∃ t ∈ tokens, l.ReadFrom t
  | @OperandDerives.literal t _ _ hkind => by
      intro l hl
      obtain rfl := List.mem_singleton.1 hl
      exact ⟨t, by simp, Or.inl hkind⟩
  | @OperandDerives.keyword t _ op hkind _ => by
      intro l hl
      obtain rfl := List.mem_singleton.1 hl
      exact ⟨t, by simp, Or.inr ⟨op, hkind, rfl⟩⟩
  | .group _ _ _ hmembers _ =>
      readFrom_of_suffix
        (suffix_cons_cons _ _ _)
        hmembers.literals_of_tokens

theorem OperandsDerive.literals_of_tokens
    {tokens rest : List Token} {xs : List Operand} :
    OperandsDerive tokens xs rest →
      ∀ l ∈ Operand.literalsOf xs, ∃ t ∈ tokens, l.ReadFrom t
  | .one hx => by
      simpa [Operand.literalsOf] using hx.literals_of_tokens
  | .more hx _ hxs => by
      intro l hl
      rcases List.mem_append.1 hl with hfirst | hmore
      · exact hx.literals_of_tokens l hfirst
      · exact
          readFrom_of_suffix
            ((List.suffix_cons _ _).trans hx.suffix)
            hxs.literals_of_tokens l hmore

end

mutual

/-- Every literal of a derived expression is what one of the tokens stands for. -/
theorem ExprDerives.literals_of_tokens
    {tokens rest : List Token} {e : Expr} :
    ExprDerives tokens e rest →
      ∀ l ∈ e.literals, ∃ t ∈ tokens, l.ReadFrom t
  | .logical _ _ hchildren _ =>
      readFrom_of_suffix
        (suffix_cons_cons _ _ _)
        hchildren.literals_of_tokens
  | .negation _ _ hchild _ =>
      readFrom_of_suffix
        (suffix_cons_cons _ _ _)
        hchild.literals_of_tokens
  | .presence _ _ hfield =>
      readFrom_of_suffix
        (suffix_cons_cons _ _ _)
        hfield.literals_of_tokens
  | .search _ _ hvalue =>
      readFrom_of_suffix
        (suffix_cons_cons _ _ _)
        hvalue.literals_of_tokens
  | .compare _ _ hfield _ hvalue => by
      refine
        readFrom_of_suffix
          (suffix_cons_cons _ _ _) ?_
      intro l hl
      rcases List.mem_append.1 hl with hfirst | hsecond
      · exact hfield.literals_of_tokens l hfirst
      · exact
          readFrom_of_suffix
            ((List.suffix_cons _ _).trans hfield.suffix)
            hvalue.literals_of_tokens l hsecond

theorem ExprsDerive.literals_of_tokens
    {tokens rest : List Token} {es : List Expr} :
    ExprsDerive tokens es rest →
      ∀ l ∈ Expr.literalsOf es, ∃ t ∈ tokens, l.ReadFrom t
  | .one he => by
      simpa [Expr.literalsOf] using he.literals_of_tokens
  | .more he _ hes => by
      intro l hl
      rcases List.mem_append.1 hl with hfirst | hmore
      · exact he.literals_of_tokens l hfirst
      · exact
          readFrom_of_suffix
            ((List.suffix_cons _ _).trans he.suffix)
            hes.literals_of_tokens l hmore

end

end Literals

end FieldQuery
