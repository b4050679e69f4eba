import FieldQuery.Proofs.ReaderSoundness

/-!
# What is derived is read

The readers find every derivation of the grammar whose nesting the limit allows.
A reader must not be led on by what follows: behind an operand without a group a
parenthesis would open one, behind an operation a bar would add an operand, and
behind a member a separator would add another.  In a derivation these stand where
the grammar wants them only, so each case of the induction can rule them out.
-/

namespace FieldQuery

section Completeness

/-- A reader succeeds with a value, leaves `rest` and `depth` open parentheses. -/
def Reads
    {bound : Nat} {α : Type} (result : Except Located (Parsed bound α))
    (value : α) (rest : List Token) (depth : Nat) : Prop :=
  ∃ last fewer, result = .ok ⟨value, rest, last, depth, fewer⟩

theorem OperandDerives.not_closing
    {tokens rest : List Token} {x : Operand}
    (hx : OperandDerives tokens x rest) :
    ¬ StartsWith .closeParen tokens := by
  cases hx with
  | literal hkind =>
      simp [hkind]
  | keyword hkind _ =>
      simp [hkind]
  | group hhead _ _ _ _ =>
      simp [hhead]

theorem OperandsDerive.not_closing
    {tokens rest : List Token} {xs : List Operand}
    (hxs : OperandsDerive tokens xs rest) :
    ¬ StartsWith .closeParen tokens := by
  cases hxs with
  | one hx =>
      exact hx.not_closing
  | more hx _ _ =>
      exact hx.not_closing

theorem ExprDerives.not_closing
    {tokens rest : List Token} {e : Expr}
    (he : ExprDerives tokens e rest) :
    ¬ StartsWith .closeParen tokens := by
  cases he <;> simp_all

theorem ExprsDerive.not_closing
    {tokens rest : List Token} {es : List Expr}
    (hes : ExprsDerive tokens es rest) :
    ¬ StartsWith .closeParen tokens := by
  cases hes with
  | one he =>
      exact he.not_closing
  | more he _ _ =>
      exact he.not_closing

/-- The opening parenthesis of a node is read when there is room for one level more. -/
theorem reads_opening
    (limit depth : Nat) (keyword : Connective) (last : Span)
    {opening : Token} (hopening : opening.kind = .openParen)
    (hroom : depth + 1 ≤ limit) (inner : List Token) :
    Reads (readOpening limit keyword depth last (opening :: inner)) () inner (depth + 1) := by
  simp only [readOpening, hopening]
  rw [if_pos trivial, if_neg (by omega)]
  exact ⟨_, _, rfl⟩

theorem reads_closing
    (keyword : Connective) (head : Span) (depth : Nat)
    {closing : Token} (hclosing : closing.kind = .closeParen)
    (rest : List Token) :
    Reads (readClosing keyword head depth (closing :: rest)) () rest (depth - 1) := by
  simp only [readClosing, hclosing]
  exact ⟨_, _, rfl⟩

mutual

/-- What the grammar derives as an operand is read, unless it is nested too deeply. -/
theorem OperandDerives.reads
    {tokens rest : List Token} {x : Operand} :
    OperandDerives tokens x rest →
      ∀ (limit depth : Nat) (last : Span), depth + x.depth ≤ limit →
        Reads (readOperand limit depth last tokens) x rest depth
  | .literal hkind => by
      intro limit depth last _
      rw [readOperand]
      simp only [hkind]
      exact ⟨_, _, rfl⟩
  | .keyword hkind hplain => by
      intro limit depth last _
      rw [readOperand]
      simp only [hkind]
      split
      · rename_i connective val hconnective hnext
        rcases hplain with hnone | hstart
        · rw [hnone] at hconnective
          cases hconnective
        · exact (hstart (next?_eq_some hnext)).elim
      · exact ⟨_, _, rfl⟩
  | @OperandDerives.group head _ _ inner _ _ connective _
      hhead hconnective hopening hmembers hclosing => by
      intro limit depth last hfits
      simp only [Operand.depth] at hfits
      obtain ⟨olast, _, hopen⟩ :=
        reads_opening limit depth connective head.span hopening (by omega) inner
      obtain ⟨xlast, _, hxs⟩ :=
        hmembers.reads (by simp [hclosing]) limit (depth + 1) olast (by omega)
      obtain ⟨clast, _, hc⟩ :=
        reads_closing connective head.span (depth + 1) hclosing rest
      have hnext := next?_eq_none_iff.2 hmembers.not_closing
      rw [readOperand]
      simp only [hhead, hconnective, next?_cons hopening]
      rw [hopen]
      simp only [hnext]
      rw [hxs]
      simp only [hc]
      exact ⟨_, _, rfl⟩

theorem OperandsDerive.reads
    {tokens rest : List Token} {xs : List Operand} :
    OperandsDerive tokens xs rest → ¬ StartsWith .groupSep rest →
      ∀ (limit depth : Nat) (last : Span), depth + Operand.depthOf xs ≤ limit →
        Reads (readOperands limit depth last tokens) xs rest depth
  | .one hx => by
      intro hstop limit depth last hfits
      simp only [Operand.depthOf, Nat.max_zero] at hfits
      obtain ⟨xlast, fewer, hread⟩ := hx.reads limit depth last hfits
      rw [readOperands]
      rw [hread]
      cases rest with
      | nil =>
          exact ⟨_, _, rfl⟩
      | cons t ts =>
          rw [startsWith_cons] at hstop
          simp only [hstop]
          exact ⟨_, _, rfl⟩
  | .more hx hseparator hxs => by
      intro hstop limit depth last hfits
      simp only [Operand.depthOf] at hfits
      obtain ⟨xlast, fewer, hread⟩ := hx.reads limit depth last (by omega)
      rw [readOperands]
      rw [hread]
      simp only [hseparator]
      obtain ⟨_, _, hmore⟩ := hxs.reads hstop limit depth _ (by omega)
      rw [hmore]
      exact ⟨_, _, rfl⟩

end

/-- Operands behind bars are read up to the last. -/
theorem BarredDerive.reads
    {tokens rest : List Token} {xs : List Operand}
    (hxs : BarredDerive tokens xs rest)
    (limit depth : Nat) (last : Span)
    (hfits : depth + Operand.depthOf xs ≤ limit) :
    Reads (readBarred limit depth last tokens) xs rest depth := by
  induction hxs generalizing last with
  | @none rest hstop =>
      rw [readBarred.eq_def]
      cases rest with
      | nil =>
          exact ⟨_, _, rfl⟩
      | cons t ts =>
          rw [startsWith_cons] at hstop
          simp only [hstop]
          exact ⟨_, _, rfl⟩
  | more hbar hx _ ih =>
      simp only [Operand.depthOf] at hfits
      obtain ⟨xlast, _, hread⟩ := hx.reads limit depth _ (by omega)
      obtain ⟨_, _, hmore⟩ := ih xlast (by omega)
      rw [readBarred]
      simp only [hbar, if_true]
      rw [hread]
      simp only [hmore]
      exact ⟨_, _, rfl⟩

/-- An operator is read with the operands behind it that it makes an expression of. -/
theorem BarredDerive.reads_operation
    {tokens rest : List Token} {xs : List Operand}
    (hxs : BarredDerive tokens xs rest)
    (hstop : ¬ StartsWith .openParen rest)
    {op : Operator} {e : Expr} (happly : op.apply? xs = some e)
    (limit depth : Nat) (head : Span)
    (hfits : depth + Operand.depthOf xs ≤ limit) :
    Reads (readOperation limit op head depth tokens) e rest depth := by
  obtain ⟨_, _, hread⟩ := hxs.reads limit depth head hfits
  unfold readOperation
  simp only [hread, next?_eq_none_iff.2 hstop, happly]
  exact ⟨_, _, rfl⟩

theorem Junction.operator_connective (j : Junction) :
    j.connective.operator = .junction j := by
  cases j <;> rfl

theorem Junction.apply?_connective (j : Junction) (children : List Expr) :
    j.connective.apply? children = some (.junction j children) := by
  cases j <;> rfl

theorem Connective.connective?_operator (connective : Connective) :
    connective.operator.connective? = some connective := by
  cases connective <;> rfl

/-- A connective is read with the children behind it that it makes a node of. -/
theorem reads_node
    {limit depth : Nat} {connective : Connective} {e : Expr} {es : List Expr}
    {head opening closing : Token} {inner rest : List Token}
    (happly : connective.apply? es = some e)
    (hhead : head.kind = .operator connective.operator)
    (hopening : opening.kind = .openParen)
    (hclosing : closing.kind = .closeParen)
    (hinner : ¬ StartsWith .closeParen inner)
    (hroom : depth + 1 ≤ limit)
    (hes : ∀ last,
      Reads (readExprs limit connective (depth + 1) last inner)
        es (closing :: rest) (depth + 1))
    (holder : Option Connective) (last : Span) :
    Reads (readExpr limit holder depth last (head :: opening :: inner)) e rest depth := by
  obtain ⟨olast, _, hopen⟩ :=
    reads_opening limit depth connective head.span hopening hroom inner
  obtain ⟨_, _, hread⟩ := hes olast
  obtain ⟨_, _, hc⟩ :=
    reads_closing connective head.span (depth + 1) hclosing rest
  have hnext := next?_eq_none_iff.2 hinner
  rw [readExpr]
  simp only [hhead, connective.connective?_operator]
  rw [hopen]
  simp only [hnext]
  rw [hread]
  simp only [happly, hc]
  exact ⟨_, _, rfl⟩

/-- Another operator is read with the operands behind it that it makes an expression of. -/
theorem BarredDerive.reads_barred
    {behind rest : List Token} {xs : List Operand}
    (hxs : BarredDerive behind xs rest)
    (hstop : ¬ StartsWith .openParen rest)
    {head : Token} {op : Operator} {e : Expr}
    (hhead : head.kind = .operator op) (hplain : op.connective? = Option.none)
    (happly : op.apply? xs = some e)
    {limit depth : Nat} (hfits : depth + Operand.depthOf xs ≤ limit)
    (holder : Option Connective) (last : Span) :
    Reads (readExpr limit holder depth last (head :: behind)) e rest depth := by
  rw [readExpr]
  simp only [hhead, hplain]
  exact hxs.reads_operation hstop happly limit depth head.span hfits

/-- An expression that no separator follows is the last child of its node. -/
theorem Reads.one
    {limit depth : Nat} {holder : Connective} {last : Span}
    {tokens rest : List Token} {e : Expr}
    (he : Reads (readExpr limit (some holder) depth last tokens) e rest depth)
    (hstop : ¬ StartsWith .groupSep rest) :
    Reads (readExprs limit holder depth last tokens) [e] rest depth := by
  obtain ⟨_, _, hread⟩ := he
  rw [readExprs]
  rw [hread]
  cases rest with
  | nil =>
      exact ⟨_, _, rfl⟩
  | cons t ts =>
      rw [startsWith_cons] at hstop
      simp only [hstop]
      exact ⟨_, _, rfl⟩

mutual

/-- What the grammar derives as an expression is read, unless it is nested too deeply. -/
theorem ExprDerives.reads
    {tokens rest : List Token} {e : Expr} :
    ExprDerives tokens e rest →
      ¬ StartsWith .fieldSep rest → ¬ StartsWith .openParen rest →
      ∀ (limit : Nat) (holder : Option Connective) (depth : Nat) (last : Span),
        depth + e.depth ≤ limit →
        Reads (readExpr limit holder depth last tokens) e rest depth
  | @ExprDerives.logical _ _ _ _ _ j children hhead hopening hchildren hclosing => by
      intro _ _ limit holder depth last hfits
      simp only [Expr.depth] at hfits
      rw [← j.operator_connective] at hhead
      refine
        reads_node (j.apply?_connective children) hhead hopening hclosing
          hchildren.not_closing (by omega) ?_ holder last
      intro olast
      exact
        hchildren.reads (by simp [hclosing]) (by simp [hclosing]) (by simp [hclosing])
          limit j.connective (depth + 1) olast (by omega)
  | @ExprDerives.negation _ _ _ _ _ child hhead hopening hchild hclosing => by
      intro _ _ limit holder depth last hfits
      simp only [Expr.depth] at hfits
      have happly : Connective.not.apply? [child] = some (.not child) := by
        rfl
      refine
        reads_node happly hhead hopening hclosing
          hchild.not_closing (by omega) ?_ holder last
      intro olast
      have hread :=
        hchild.reads (by simp [hclosing]) (by simp [hclosing])
          limit (some .not) (depth + 1) olast (by omega)
      exact hread.one (by simp [hclosing])
  | .presence hhead hbar hfield => by
      intro hbars hstop limit holder depth last hfits
      have hxs := BarredDerive.more hbar hfield (.none hbars)
      simp only [Expr.depth] at hfits
      exact hxs.reads_barred hstop hhead rfl rfl (by simpa [Operand.depthOf]) holder last
  | .search hhead hbar hvalue => by
      intro hbars hstop limit holder depth last hfits
      have hxs := BarredDerive.more hbar hvalue (.none hbars)
      simp only [Expr.depth] at hfits
      exact hxs.reads_barred hstop hhead rfl rfl (by simpa [Operand.depthOf]) holder last
  | .compare hhead hbar hfield hbar' hvalue => by
      intro hbars hstop limit holder depth last hfits
      have hxs := BarredDerive.more hbar hfield (.more hbar' hvalue (.none hbars))
      simp only [Expr.depth] at hfits
      exact hxs.reads_barred hstop hhead rfl rfl (by simpa [Operand.depthOf]) holder last

theorem ExprsDerive.reads
    {tokens rest : List Token} {es : List Expr} :
    ExprsDerive tokens es rest →
      ¬ StartsWith .groupSep rest →
      ¬ StartsWith .fieldSep rest → ¬ StartsWith .openParen rest →
      ∀ (limit : Nat) (holder : Connective) (depth : Nat) (last : Span),
        depth + Expr.depthOf es ≤ limit →
        Reads (readExprs limit holder depth last tokens) es rest depth
  | .one he => by
      intro hstop hbars hparen limit holder depth last hfits
      simp only [Expr.depthOf, Nat.max_zero] at hfits
      have hread := he.reads hbars hparen limit (some holder) depth last hfits
      exact hread.one hstop
  | .more he hseparator hes => by
      intro hstop hbars hparen limit holder depth last hfits
      simp only [Expr.depthOf] at hfits
      obtain ⟨_, _, hread⟩ :=
        he.reads (by simp [hseparator]) (by simp [hseparator])
          limit (some holder) depth last (by omega)
      rw [readExprs]
      rw [hread]
      simp only [hseparator]
      obtain ⟨_, _, hmore⟩ := hes.reads hstop hbars hparen limit holder depth _ (by omega)
      rw [hmore]
      exact ⟨_, _, rfl⟩

end

end Completeness

end FieldQuery
