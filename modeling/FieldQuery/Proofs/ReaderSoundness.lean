import FieldQuery.Proofs.Grammar
import FieldQuery.Query.Parsing

/-!
# What is read is derived

Every reader that succeeds has read what the grammar derives from the tokens in
front of it.  It leaves as many parentheses open as it found, and what it read is
nested no more deeply than the limit allows.

**Results.**

* `readOperand_group`, `readGroup_ok`: a group is read behind its keyword;
* `sound_between_parentheses`: a node is read soundly if its members are;
* `readOperand_sound`, `readOperands_sound`, `readBarred_sound`: fields and values;
* `readOperation_sound`, `readExpr_sound`, `readExprs_sound`: expressions.
-/

namespace FieldQuery

section Steps

theorem map_eq_ok_iff
    {ε α β : Type} {r : Except ε α} {f : α → β} {b : β} :
    r.map f = .ok b ↔ ∃ a, r = .ok a ∧ f a = b := by
  cases r <;> simp [Except.map]

theorem map_eq_error_iff
    {ε α β : Type} {r : Except ε α} {f : α → β} {err : ε} :
    r.map f = .error err ↔ r = .error err := by
  cases r <;> simp [Except.map]

theorem next?_eq_none_iff
    {kind : TokenKind} {tokens : List Token} :
    next? kind tokens = none ↔ ¬ StartsWith kind tokens := by
  cases tokens with
  | nil =>
      simp [next?]
  | cons t ts =>
      simp [next?]

theorem next?_cons
    {kind : TokenKind} {t : Token} (hkind : t.kind = kind) (ts : List Token) :
    next? kind (t :: ts) = some t := by
  simp [next?, hkind]

theorem next?_eq_some
    {kind : TokenKind} {tokens : List Token} {t : Token}
    (hnext : next? kind tokens = some t) :
    StartsWith kind tokens := by
  cases tokens with
  | nil =>
      cases hnext
  | cons t' ts =>
      simp only [next?] at hnext
      split at hnext
      · assumption
      · cases hnext

/-- What the reader of an opening parenthesis has done when it succeeds. -/
theorem readOpening_ok
    {limit depth : Nat} {keyword : Connective} {last : Span}
    {tokens : List Token} {o : Parsed tokens.length Unit}
    (hread : readOpening limit keyword depth last tokens = .ok o) :
    ∃ t, tokens = t :: o.rest ∧ t.kind = .openParen ∧
      o.depth = depth + 1 ∧ depth + 1 ≤ limit := by
  cases tokens with
  | nil =>
      simp [readOpening] at hread
  | cons t ts =>
      simp only [readOpening] at hread
      split at hread
      · rename_i hkind
        split at hread
        · cases hread
        · rename_i hroom
          cases hread
          exact ⟨t, rfl, hkind, rfl, Nat.le_of_not_lt hroom⟩
      · cases hread

/-- What the reader of a closing parenthesis has done when it succeeds. -/
theorem readClosing_ok
    {keyword : Connective} {head : Span} {depth : Nat}
    {tokens : List Token} {c : Parsed tokens.length Unit}
    (hread : readClosing keyword head depth tokens = .ok c) :
    ∃ t, tokens = t :: c.rest ∧ t.kind = .closeParen ∧
      c.depth = depth - 1 := by
  cases tokens with
  | nil =>
      simp [readClosing] at hread
  | cons t ts =>
      simp only [readClosing] at hread
      split at hread
      · rename_i hkind
        cases hread
        exact ⟨t, rfl, hkind, rfl⟩
      · cases hread

/-- Reads a group behind its keyword. -/
def readGroup (limit : Nat) (connective : Connective) (head : Span) (depth : Nat) (last : Span)
    (tokens : List Token) : Except Located (Parsed tokens.length Operand) :=
  match readOpening limit connective depth last tokens with
  | .error e => .error e
  | .ok o =>
      match next? .closeParen o.rest with
      | some close => .error (faultWithin (.emptyGroup connective) head.start close.stop)
      | none =>
          match readOperands limit o.depth o.last o.rest with
          | .error e => .error e
          | .ok xs =>
              match readClosing connective head xs.depth xs.rest with
              | .error e => .error e
              | .ok c =>
                  .ok (c.widen (.group connective xs.value)
                    (Nat.le_of_lt (Nat.lt_trans xs.fewer o.fewer)))

/-- The reader of an operand reads a group where a connective and a parenthesis are ahead. -/
theorem readOperand_group
    {limit depth : Nat} {last : Span} {t : Token} {ts : List Token} {op : Operator}
    {connective : Connective} (hhead : t.kind = .operator op)
    (hconnective : op.connective? = some connective) (hopening : StartsWith .openParen ts) :
    readOperand limit depth last (t :: ts) =
      (readGroup limit connective t.span depth t.span ts).map
        fun p => p.widen p.value (Nat.le_succ _) := by
  obtain ⟨u, us, rfl, hkind⟩ := hopening.exists_cons
  rw [readOperand]
  simp only [hhead, hconnective, next?_cons hkind, readGroup]
  cases readOpening limit connective depth t.span (u :: us) with
  | error err =>
      rfl
  | ok o =>
      dsimp only
      cases next? .closeParen o.rest with
      | some close =>
          rfl
      | none =>
          dsimp only
          cases readOperands limit o.depth o.last o.rest with
          | error err =>
              rfl
          | ok xs =>
              dsimp only
              cases readClosing connective t.span xs.depth xs.rest <;> rfl

/-- What the reader of a group has done when it succeeds. -/
theorem readGroup_ok
    {limit depth : Nat} {connective : Connective} {head last : Span} {tokens : List Token}
    {p : Parsed tokens.length Operand}
    (hread : readGroup limit connective head depth last tokens = .ok p) :
    ∃ o xs c h, readOpening limit connective depth last tokens = .ok o ∧
      readOperands limit o.depth o.last o.rest = .ok xs ∧
      readClosing connective head xs.depth xs.rest = .ok c ∧
      p = c.widen (.group connective xs.value) h := by
  unfold readGroup at hread
  split at hread
  · cases hread
  rename_i o hopen
  split at hread
  · cases hread
  split at hread
  · cases hread
  rename_i xs hxs
  split at hread
  · cases hread
  rename_i c hclose
  cases hread
  exact ⟨o, xs, c, _, hopen, hxs, hclose, rfl⟩

/-- How an operand is read: one token as a literal, or a group behind its keyword. -/
inductive OperandRead (limit depth : Nat) (t : Token) (ts : List Token) :
    Parsed (t :: ts).length Operand → Prop
  | literal
      {l : Literal}
      (hl : OperandDerives (t :: ts) (.literal l) ts) :
      OperandRead limit depth t ts ⟨.literal l, ts, t.span, depth, Nat.lt_succ_self _⟩
  | group
      {op : Operator} {connective : Connective} {g : Parsed ts.length Operand}
      (hhead : t.kind = .operator op)
      (hconnective : op.connective? = some connective)
      (hgroup : readGroup limit connective t.span depth t.span ts = .ok g) :
      OperandRead limit depth t ts (g.widen g.value (Nat.le_succ _))

/-- What the reader of an operand has done when it succeeds. -/
theorem readOperand_ok
    {limit depth : Nat} {last : Span} {t : Token} {ts : List Token}
    {p : Parsed (t :: ts).length Operand}
    (hread : readOperand limit depth last (t :: ts) = .ok p) :
    OperandRead limit depth t ts p := by
  cases hkind : t.kind with
  | literal l =>
      rw [readOperand] at hread
      simp only [hkind] at hread
      cases hread
      exact .literal (.literal hkind)
  | operator op =>
      cases hconnective : op.connective? with
      | none =>
          rw [readOperand] at hread
          simp only [hkind, hconnective] at hread
          cases hread
          exact .literal (.keyword hkind (.inl hconnective))
      | some connective =>
          by_cases hopening : StartsWith .openParen ts
          · rw [readOperand_group hkind hconnective hopening] at hread
            obtain ⟨g, hgroup, rfl⟩ := map_eq_ok_iff.1 hread
            exact .group hkind hconnective hgroup
          · rw [readOperand] at hread
            simp only [hkind, hconnective, next?_eq_none_iff.2 hopening] at hread
            cases hread
            exact .literal (.keyword hkind (.inr hopening))
  | _ =>
      rw [readOperand] at hread
      simp only [hkind] at hread
      cases hread

end Steps

section Soundness

/--
What was read is derived by the tokens it was read from, leaves as many
parentheses open as before, and is nested no deeper than allowed.
-/
structure Parsed.Sound
    {bound : Nat} {α : Type}
    (derives : List Token → α → List Token → Prop) (size : α → Nat)
    (limit depth : Nat) (tokens : List Token) (p : Parsed bound α) : Prop where
  derived : derives tokens p.value p.rest
  depth_eq : p.depth = depth
  depth_le : depth ≤ limit → depth + size p.value ≤ limit

/-- A node is read soundly if its members are: it closes what it opens, one level deeper. -/
theorem sound_between_parentheses
    {α : Type} {derives : List Token → α → List Token → Prop} {size : α → Nat}
    {limit depth : Nat} {keyword : Connective} {head last : Span} {tokens : List Token}
    {o : Parsed tokens.length Unit} {xs : Parsed o.rest.length α}
    {c : Parsed xs.rest.length Unit}
    (hopen : readOpening limit keyword depth last tokens = .ok o)
    (hxs : xs.Sound derives size limit o.depth o.rest)
    (hclose : readClosing keyword head xs.depth xs.rest = .ok c) :
    ∃ opening inner closing, tokens = opening :: inner ∧ opening.kind = .openParen ∧
      derives inner xs.value (closing :: c.rest) ∧ closing.kind = .closeParen ∧
      c.depth = depth ∧ depth + (1 + size xs.value) ≤ limit := by
  obtain ⟨opening, htokens, hopening, hraised, hroom⟩ := readOpening_ok hopen
  obtain ⟨closing, hrest, hclosing, hlowered⟩ := readClosing_ok hclose
  obtain ⟨hmembers, hkept, hfits⟩ := hxs
  rw [hrest] at hmembers
  have hinner := hfits (by omega)
  exact ⟨opening, o.rest, closing, htokens, hopening, hmembers, hclosing, by omega, by omega⟩

mutual

/-- The reader of an operand succeeds only on what the grammar derives. -/
theorem readOperand_sound
    (limit depth : Nat) (last : Span) :
    ∀ {tokens : List Token} {p : Parsed tokens.length Operand},
      readOperand limit depth last tokens = .ok p →
        p.Sound OperandDerives Operand.depth limit depth tokens
  | [], p, hread => by
      rw [readOperand] at hread
      cases hread
  | t :: ts, p, hread => by
      cases readOperand_ok hread with
      | literal hl =>
          exact ⟨hl, rfl, id⟩
      | group hhead hconnective hgroup =>
          obtain ⟨o, xs, c, _, hopen, hxs, hclose, rfl⟩ := readGroup_ok hgroup
          have hfewer := o.fewer
          obtain ⟨opening, inner, closing, rfl, hopening, hmembers, hclosing, hkept, hfits⟩ :=
            sound_between_parentheses hopen (readOperands_sound limit o.depth o.last hxs) hclose
          exact ⟨.group hhead hconnective hopening hmembers hclosing, hkept, fun _ => hfits⟩
termination_by tokens => (tokens.length, 0)

/-- The reader of several operands succeeds only on what the grammar derives. -/
theorem readOperands_sound
    (limit depth : Nat) (last : Span)
    {tokens : List Token} {p : Parsed tokens.length (List Operand)}
    (hread : readOperands limit depth last tokens = .ok p) :
    p.Sound OperandsDerive Operand.depthOf limit depth tokens := by
  rw [readOperands] at hread
  cases hx : readOperand limit depth last tokens with
  | error err =>
      rw [hx] at hread
      cases hread
  | ok first =>
      obtain ⟨hderived, hkept, hfits⟩ := readOperand_sound limit depth last hx
      obtain ⟨x, rest, last', depth', hfewer⟩ := first
      obtain rfl : depth' = depth := hkept
      rw [hx] at hread
      cases rest with
      | nil =>
          cases hread
          exact ⟨.one hderived, rfl, by simpa [Operand.depthOf] using hfits⟩
      | cons t ts =>
          have hlength : ts.length < tokens.length := Nat.lt_of_succ_lt hfewer
          dsimp only at hread
          split at hread
          · rename_i hseparator
            split at hread
            · cases hread
            rename_i xs hxs
            cases hread
            obtain ⟨hmore, hkept, hfits'⟩ := readOperands_sound limit depth' t.span hxs
            refine ⟨.more hderived hseparator hmore, hkept, fun hle => ?_⟩
            have hfirst := hfits hle
            have hothers := hfits' hle
            simp only [Parsed.widen, Operand.depthOf] at hfirst ⊢
            omega
          · cases hread
            exact ⟨.one hderived, rfl, by simpa [Operand.depthOf] using hfits⟩
termination_by (tokens.length, 1)

end

/-- Operands behind bars, as many as there are. -/
inductive BarredDerive : List Token → List Operand → List Token → Prop
  | none
      {rest : List Token}
      (hstop : ¬ StartsWith .fieldSep rest) :
      BarredDerive rest [] rest
  | more
      {bar : Token} {tokens behind rest : List Token}
      {x : Operand} {xs : List Operand}
      (hbar : bar.kind = .fieldSep)
      (hx : OperandDerives tokens x behind)
      (hxs : BarredDerive behind xs rest) :
      BarredDerive (bar :: tokens) (x :: xs) rest

/-- The reader of operands behind bars reads them all. -/
theorem readBarred_sound
    (limit depth : Nat) (last : Span) :
    ∀ {tokens : List Token} {p : Parsed (tokens.length + 1) (List Operand)},
      readBarred limit depth last tokens = .ok p →
        p.Sound BarredDerive Operand.depthOf limit depth tokens
  | [], p, hread => by
      rw [readBarred] at hread
      cases hread
      exact ⟨.none (not_startsWith_nil _), rfl, id⟩
  | t :: ts, p, hread => by
      rw [readBarred] at hread
      split at hread
      · rename_i hbar
        split at hread
        · cases hread
        rename_i x hx
        have hfewer := x.fewer
        dsimp only at hread
        split at hread
        · cases hread
        rename_i xs hxs
        cases hread
        obtain ⟨hderived, hkept, hfits⟩ := readOperand_sound limit depth t.span hx
        obtain ⟨hmore, hkept', hfits'⟩ := readBarred_sound limit x.depth x.last hxs
        refine ⟨.more hbar hderived hmore, hkept'.trans hkept, fun hle => ?_⟩
        have hfirst := hfits hle
        have hothers := hfits' (by omega)
        simp only [Parsed.widen, Operand.depthOf]
        omega
      · rename_i hstop
        cases hread
        exact ⟨.none hstop, rfl, id⟩
termination_by tokens => tokens.length

/-- An operator makes an expression of operands that the grammar derives behind it. -/
theorem Operator.derives_of_apply?
    {op : Operator} {xs : List Operand} {e : Expr}
    (happly : op.apply? xs = some e)
    {head : Token} {tokens rest : List Token}
    (hhead : head.kind = .operator op)
    (hxs : BarredDerive tokens xs rest) :
    ExprDerives (head :: tokens) e rest ∧
      e.depth = Operand.depthOf xs := by
  unfold Operator.apply? at happly
  split at happly
  · rename_i p field
    cases happly
    cases hxs with
    | more hbar hx hnone =>
        cases hnone
        exact ⟨.presence hhead hbar hx, by simp [Expr.depth, Operand.depthOf]⟩
  · rename_i mode value
    cases happly
    cases hxs with
    | more hbar hx hnone =>
        cases hnone
        exact ⟨.search hhead hbar hx, by simp [Expr.depth, Operand.depthOf]⟩
  · rename_i c field value
    cases happly
    cases hxs with
    | more hbar hx hmore =>
        cases hmore with
        | more hbar' hy hnone =>
            cases hnone
            exact ⟨.compare hhead hbar hx hbar' hy, by simp [Expr.depth, Operand.depthOf]⟩
  · cases happly

/-- The reader behind a barred operator succeeds only on what the grammar derives. -/
theorem readOperation_sound
    {limit depth : Nat} {op : Operator} {t : Token} {ts : List Token}
    {p : Parsed (ts.length + 1) Expr}
    (hkind : t.kind = .operator op)
    (hread : readOperation limit op t.span depth ts = .ok p) :
    p.Sound ExprDerives Expr.depth limit depth (t :: ts) := by
  unfold readOperation at hread
  cases hxs : readBarred limit depth t.span ts with
  | error err =>
      simp [hxs] at hread
  | ok xs =>
      simp only [hxs] at hread
      split at hread
      · cases hread
      split at hread
      · rename_i e happly
        cases hread
        obtain ⟨hbarred, hkept, hfits⟩ := readBarred_sound limit depth t.span hxs
        obtain ⟨hderived, hdepth⟩ := Operator.derives_of_apply? happly hkind hbarred
        refine ⟨hderived, hkept, ?_⟩
        intro hle
        simp only [Parsed.widen]
        rw [hdepth]
        exact hfits hle
      · cases hread

/-- The operators that are connectives carry the connective's own keyword. -/
theorem Operator.connective?_eq_some
    {op : Operator} {connective : Connective}
    (hconnective : op.connective? = some connective) :
    op = connective.operator := by
  unfold Operator.connective? at hconnective
  split at hconnective
  · rename_i j
    cases hconnective
    cases j <;> rfl
  · cases hconnective
    rfl
  · cases hconnective

/-- A connective makes a node of its children that the grammar derives, one level deeper. -/
theorem Connective.derives_of_apply?
    {connective : Connective} {es : List Expr} {e : Expr}
    (happly : connective.apply? es = some e)
    {head opening closing : Token} {inner rest : List Token}
    (hhead : head.kind = .operator connective.operator)
    (hopening : opening.kind = .openParen)
    (hes : ExprsDerive inner es (closing :: rest))
    (hclosing : closing.kind = .closeParen) :
    ExprDerives (head :: opening :: inner) e rest ∧
      e.depth = 1 + Expr.depthOf es := by
  cases connective with
  | and =>
      cases happly
      exact ⟨.logical hhead hopening hes hclosing, rfl⟩
  | or =>
      cases happly
      exact ⟨.logical hhead hopening hes hclosing, rfl⟩
  | not =>
      cases hes with
      | one he =>
          cases happly
          exact ⟨.negation hhead hopening he hclosing, by simp [Expr.depth, Expr.depthOf]⟩
      | more he hseparator hes =>
          cases hes <;> cases happly

mutual

/-- The reader of an expression succeeds only on what the grammar derives. -/
theorem readExpr_sound
    (limit : Nat) (holder : Option Connective) (depth : Nat) (last : Span) :
    ∀ {tokens : List Token} {p : Parsed tokens.length Expr},
      readExpr limit holder depth last tokens = .ok p →
        p.Sound ExprDerives Expr.depth limit depth tokens
  | [], p, hread => by
      rw [readExpr] at hread
      cases hread
  | t :: ts, p, hread => by
      rw [readExpr] at hread
      cases hkind : t.kind with
      | operator op =>
          simp only [hkind] at hread
          cases hconnective : op.connective? with
          | none =>
              simp only [hconnective] at hread
              exact readOperation_sound hkind hread
          | some keyword =>
              simp only [hconnective] at hread
              split at hread
              · cases hread
              rename_i o hopen
              split at hread
              · cases hread
              split at hread
              · cases hread
              rename_i es hes
              split at hread
              · cases hread
              rename_i e happly
              split at hread
              · cases hread
              rename_i c hclose
              cases hread
              have hfewer := o.fewer
              obtain ⟨opening, inner, closing, rfl, hopening, hchildren, hclosing, hkept, hfits⟩ :=
                sound_between_parentheses hopen (readExprs_sound limit keyword o.depth o.last hes)
                  hclose
              rw [Operator.connective?_eq_some hconnective] at hkind
              obtain ⟨hderived, hsize⟩ :=
                Connective.derives_of_apply? happly hkind hopening hchildren hclosing
              exact ⟨hderived, hkept, fun _ => hsize ▸ hfits⟩
      | _ =>
          simp only [hkind] at hread
          cases hread
termination_by tokens => (tokens.length, 0)

/-- The reader of several expressions succeeds only on what the grammar derives. -/
theorem readExprs_sound
    (limit : Nat) (holder : Connective) (depth : Nat) (last : Span)
    {tokens : List Token} {p : Parsed tokens.length (List Expr)}
    (hread : readExprs limit holder depth last tokens = .ok p) :
    p.Sound ExprsDerive Expr.depthOf limit depth tokens := by
  rw [readExprs] at hread
  cases he : readExpr limit (some holder) depth last tokens with
  | error err =>
      rw [he] at hread
      cases hread
  | ok first =>
      obtain ⟨hderived, hkept, hfits⟩ := readExpr_sound limit (some holder) depth last he
      obtain ⟨e, rest, last', depth', hfewer⟩ := first
      obtain rfl : depth' = depth := hkept
      rw [he] at hread
      cases rest with
      | nil =>
          cases hread
          exact ⟨.one hderived, rfl, by simpa [Expr.depthOf] using hfits⟩
      | cons t ts =>
          have hlength : ts.length < tokens.length := Nat.lt_of_succ_lt hfewer
          dsimp only at hread
          split at hread
          · rename_i hseparator
            split at hread
            · cases hread
            rename_i es hes
            cases hread
            obtain ⟨hmore, hkept, hfits'⟩ := readExprs_sound limit holder depth' t.span hes
            refine ⟨.more hderived hseparator hmore, hkept, fun hle => ?_⟩
            have hfirst := hfits hle
            have hothers := hfits' hle
            simp only [Parsed.widen, Expr.depthOf] at hfirst ⊢
            omega
          · cases hread
            exact ⟨.one hderived, rfl, by simpa [Expr.depthOf] using hfits⟩
termination_by (tokens.length, 1)

end

end Soundness

end FieldQuery
