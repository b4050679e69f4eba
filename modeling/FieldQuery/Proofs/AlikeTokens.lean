import Mathlib.Data.List.Forall2
import FieldQuery.Query.Parsing

/-!
# Reading alike tokens

Two lists of tokens are alike if they differ only in where the tokens are and in how
those are spelt that are no operators.  The reader looks at nothing else: on both lists
it takes the same steps, so it ends with the same expression or the same fault.  The
places it passes on are only good for saying where a fault is, and differ.

**Results.**

* `next?_alike`: the token ahead is of the same kind;
* `readOperand_alike`, `readBarred_alike`, `readExpr_alike`: the readers;
* `readTokens_alike`: whole lists.
-/

namespace FieldQuery

section Tokens

/-- Two tokens that mean the same, and are spelt the same if they are operators. -/
structure Token.Alike (t t' : Token) : Prop where
  kind : t.kind = t'.kind
  text : ∀ op, t.kind = .operator op → t.text = t'.text

/-- Two lists of tokens that are alike one by one. -/
abbrev AlikeTokens : List Token → List Token → Prop :=
  List.Forall₂ Token.Alike

theorem Token.Alike.refl
    (t : Token) :
    t.Alike t :=
  ⟨rfl, fun _ _ => rfl⟩

theorem AlikeTokens.refl
    (ts : List Token) :
    AlikeTokens ts ts :=
  List.forall₂_same.2 fun t _ => .refl t

theorem Token.Alike.trans
    {t u v : Token} (htu : t.Alike u) (huv : u.Alike v) :
    t.Alike v := by
  refine ⟨htu.kind.trans huv.kind, fun op hop => ?_⟩
  rw [htu.text op hop]
  exact huv.text op (htu.kind.symm.trans hop)

theorem AlikeTokens.trans
    {ts us vs : List Token} (htu : AlikeTokens ts us) (huv : AlikeTokens us vs) :
    AlikeTokens ts vs := by
  induction htu generalizing vs with
  | nil =>
      exact huv
  | cons ht _ ih =>
      cases huv with
      | cons hu hus =>
          exact .cons (ht.trans hu) (ih hus)

/-- The next tokens are both of a kind, or neither is. -/
theorem next?_alike
    (kind : TokenKind) {ts ts' : List Token} (hts : AlikeTokens ts ts') :
    (next? kind ts = none ∧ next? kind ts' = none) ∨
      ∃ t t', next? kind ts = some t ∧ next? kind ts' = some t' := by
  cases hts with
  | nil =>
      exact Or.inl ⟨rfl, rfl⟩
  | @cons t t' _ _ ht _ =>
      simp only [next?, ← ht.kind]
      by_cases hkind : t.kind = kind
      · exact Or.inr ⟨t, t', if_pos hkind, if_pos hkind⟩
      · exact Or.inl ⟨if_neg hkind, if_neg hkind⟩

end Tokens

section Results

variable {n n' m m' : Nat} {α β : Type}

/-- What a reader returned twice is the same but for places. -/
structure Parsed.Alike (p : Parsed n α) (p' : Parsed n' α) : Prop where
  value : p.value = p'.value
  rest : AlikeTokens p.rest p'.rest
  depth : p.depth = p'.depth

theorem Parsed.Alike.widen
    {p : Parsed n α} {p' : Parsed n' α} (hparsed : p.Alike p') (value : β)
    (h : n ≤ m) (h' : n' ≤ m') :
    (p.widen value h).Alike (p'.widen value h') :=
  ⟨rfl, hparsed.rest, hparsed.depth⟩

/-- Two readings ended with the same fault, or returned the same but for places. -/
def AlikeResults
    (r : Except Located (Parsed n α)) (r' : Except Located (Parsed n' α)) : Prop :=
  (∃ err err', r = .error err ∧ r' = .error err' ∧ err.fault = err'.fault) ∨
    ∃ p p', r = .ok p ∧ r' = .ok p' ∧ p.Alike p'

theorem AlikeResults.error
    {err err' : Located} (hfault : err.fault = err'.fault) :
    AlikeResults (.error err : Except Located (Parsed n α))
      (.error err' : Except Located (Parsed n' α)) :=
  Or.inl ⟨err, err', rfl, rfl, hfault⟩

theorem AlikeResults.ok
    {p : Parsed n α} {p' : Parsed n' α} (hparsed : p.Alike p') :
    AlikeResults (.ok p) (.ok p') :=
  Or.inr ⟨p, p', rfl, rfl, hparsed⟩

end Results

section Readers

theorem readOpening_alike
    (limit : Nat) (keyword : Connective) (depth : Nat) (last last' : Span)
    {ts ts' : List Token} (hts : AlikeTokens ts ts') :
    AlikeResults
      (readOpening limit keyword depth last ts)
      (readOpening limit keyword depth last' ts') := by
  cases hts with
  | nil =>
      exact .error rfl
  | cons ht hts =>
      simp only [readOpening, ← ht.kind]
      split
      · split
        · exact .error rfl
        · exact .ok ⟨rfl, hts, rfl⟩
      · exact .error rfl

theorem readClosing_alike
    (keyword : Connective) (head head' : Span) (depth : Nat)
    {ts ts' : List Token} (hts : AlikeTokens ts ts') :
    AlikeResults
      (readClosing keyword head depth ts)
      (readClosing keyword head' depth ts') := by
  cases hts with
  | nil =>
      exact .error rfl
  | cons ht hts =>
      simp only [readClosing, ← ht.kind]
      split
      · exact .ok ⟨rfl, hts, rfl⟩
      · exact .error rfl

mutual

theorem readOperand_alike
    (limit depth : Nat) (last last' : Span) :
    ∀ {ts ts' : List Token}, AlikeTokens ts ts' →
      AlikeResults
        (readOperand limit depth last ts)
        (readOperand limit depth last' ts')
  | _, _, .nil => by
      rw [readOperand, readOperand]
      exact .error rfl
  | t :: ts, t' :: ts', .cons ht hts => by
      rw [readOperand, readOperand, ← ht.kind]
      cases hkind : t.kind with
      | operator op =>
          -- an operator without a group behind it is a word, and then its text matters
          rw [ht.text op hkind]
          dsimp only
          cases op.connective? with
          | none =>
              exact .ok ⟨rfl, hts, rfl⟩
          | some connective =>
              rcases next?_alike .openParen hts with ⟨hnext, hnext'⟩ | ⟨_, _, hnext, hnext'⟩
              · rw [hnext, hnext']
                exact .ok ⟨rfl, hts, rfl⟩
              · simp only [hnext, hnext']
                rcases readOpening_alike limit connective depth t.span t'.span hts with
                  ⟨_, _, hr, hr', hfault⟩ | ⟨o, o', hr, hr', ho⟩
                · rw [hr, hr']
                  exact .error hfault
                · simp only [hr, hr', ← ho.depth]
                  rcases next?_alike .closeParen ho.rest with
                    ⟨hclose, hclose'⟩ | ⟨_, _, hclose, hclose'⟩
                  · simp only [hclose, hclose']
                    have hfewer := o.fewer
                    rcases readOperands_alike limit o.depth o.last o'.last ho.rest with
                      ⟨_, _, hr, hr', hfault⟩ | ⟨xs, xs', hr, hr', hxs⟩
                    · rw [hr, hr']
                      exact .error hfault
                    · simp only [hr, hr', ← hxs.depth, ← hxs.value]
                      rcases readClosing_alike connective t.span t'.span xs.depth hxs.rest with
                        ⟨_, _, hr, hr', hfault⟩ | ⟨c, c', hr, hr', hc⟩
                      · rw [hr, hr']
                        exact .error hfault
                      · rw [hr, hr']
                        exact .ok (hc.widen _ _ _)
                  · rw [hclose, hclose']
                    exact .error rfl
      | literal l =>
          exact .ok ⟨rfl, hts, rfl⟩
      | _ =>
          exact .error rfl
termination_by ts => (ts.length, 0)

theorem readOperands_alike
    (limit depth : Nat) (last last' : Span)
    {ts ts' : List Token} (hts : AlikeTokens ts ts') :
    AlikeResults
      (readOperands limit depth last ts)
      (readOperands limit depth last' ts') := by
  rw [readOperands, readOperands]
  rcases readOperand_alike limit depth last last' hts with
    ⟨_, _, hr, hr', hfault⟩ | ⟨⟨x, rest, _, depth, hfewer⟩, ⟨x', rest', _, depth', _⟩, hr, hr', hx⟩
  · rw [hr, hr']
    exact .error hfault
  · rw [hr, hr']
    obtain ⟨rfl, hrest, rfl⟩ := hx
    cases hrest with
    | nil =>
        exact .ok ⟨rfl, .nil, rfl⟩
    | @cons t t' us us' ht hus =>
        have hlength : us.length < ts.length := Nat.lt_of_succ_lt hfewer
        simp only [← ht.kind]
        split
        · rcases readOperands_alike limit depth t.span t'.span hus with
            ⟨_, _, hr, hr', hfault⟩ | ⟨xs, xs', hr, hr', hxs⟩
          · rw [hr, hr']
            exact .error hfault
          · simp only [hr, hr', ← hxs.value]
            exact .ok (hxs.widen _ _ _)
        · exact .ok ⟨rfl, .cons ht hus, rfl⟩
termination_by (ts.length, 1)

end

theorem readBarred_alike
    (limit depth : Nat) (last last' : Span) :
    ∀ {ts ts' : List Token}, AlikeTokens ts ts' →
      AlikeResults
        (readBarred limit depth last ts)
        (readBarred limit depth last' ts')
  | _, _, .nil => by
      rw [readBarred, readBarred]
      exact .ok ⟨rfl, .nil, rfl⟩
  | t :: ts, t' :: ts', .cons ht hts => by
      rw [readBarred, readBarred, ← ht.kind]
      split
      · rcases readOperand_alike limit depth t.span t'.span hts with
          ⟨_, _, hr, hr', hfault⟩ | ⟨x, x', hr, hr', hx⟩
        · rw [hr, hr']
          exact .error hfault
        · simp only [hr, hr', ← hx.depth, ← hx.value]
          have hfewer := x.fewer
          rcases readBarred_alike limit x.depth x.last x'.last hx.rest with
            ⟨_, _, hr, hr', hfault⟩ | ⟨xs, xs', hr, hr', hxs⟩
          · rw [hr, hr']
            exact .error hfault
          · simp only [hr, hr', ← hxs.value]
            exact .ok (hxs.widen _ _ _)
      · exact .ok ⟨rfl, .cons ht hts, rfl⟩
termination_by ts => ts.length

theorem readOperation_alike
    (limit : Nat) (op : Operator) (head head' : Span) (depth : Nat)
    {ts ts' : List Token} (hts : AlikeTokens ts ts') :
    AlikeResults
      (readOperation limit op head depth ts)
      (readOperation limit op head' depth ts') := by
  unfold readOperation
  rcases readBarred_alike limit depth head head' hts with
    ⟨_, _, hr, hr', hfault⟩ | ⟨xs, xs', hr, hr', hxs⟩
  · rw [hr, hr']
    exact .error hfault
  · simp only [hr, hr', ← hxs.value]
    rcases next?_alike .openParen hxs.rest with ⟨hopen, hopen'⟩ | ⟨_, _, hopen, hopen'⟩
    · simp only [hopen, hopen']
      cases op.apply? xs.value with
      | none =>
          exact .error rfl
      | some e =>
          exact .ok (hxs.widen _ _ _)
    · rw [hopen, hopen']
      exact .error rfl

/-- What a literal among expressions is blamed for depends on whether a bar is ahead. -/
theorem literalFault_alike
    (holder : Option Connective) (l : Literal) (span span' : Span)
    {ts ts' : List Token} (hts : AlikeTokens ts ts') :
    (literalFault holder l span ts).fault = (literalFault holder l span' ts').fault := by
  have hbarred : (next? .fieldSep ts).isSome = (next? .fieldSep ts').isSome := by
    rcases next?_alike .fieldSep hts with ⟨hbar, hbar'⟩ | ⟨_, _, hbar, hbar'⟩
    · rw [hbar, hbar']
    · rw [hbar, hbar']
      rfl
  simp only [literalFault, hbarred]
  split
  · rfl
  · cases holder <;> rfl

mutual

theorem readExpr_alike
    (limit : Nat) (holder : Option Connective) (depth : Nat) (last last' : Span) :
    ∀ {ts ts' : List Token}, AlikeTokens ts ts' →
      AlikeResults
        (readExpr limit holder depth last ts)
        (readExpr limit holder depth last' ts')
  | _, _, .nil => by
      rw [readExpr, readExpr]
      exact .error rfl
  | t :: ts, t' :: ts', .cons ht hts => by
      rw [readExpr, readExpr, ← ht.kind]
      cases t.kind with
      | operator op =>
          dsimp only
          cases op.connective? with
          | none =>
              exact readOperation_alike limit op t.span t'.span depth hts
          | some keyword =>
              dsimp only
              rcases readOpening_alike limit keyword depth t.span t'.span hts with
                ⟨_, _, hr, hr', hfault⟩ | ⟨o, o', hr, hr', ho⟩
              · rw [hr, hr']
                exact .error hfault
              · simp only [hr, hr', ← ho.depth]
                rcases next?_alike .closeParen ho.rest with
                  ⟨hclose, hclose'⟩ | ⟨_, _, hclose, hclose'⟩
                · simp only [hclose, hclose']
                  have hfewer := o.fewer
                  rcases readExprs_alike limit keyword o.depth o.last o'.last ho.rest with
                    ⟨_, _, hr, hr', hfault⟩ | ⟨es, es', hr, hr', hes⟩
                  · rw [hr, hr']
                    exact .error hfault
                  · simp only [hr, hr', ← hes.depth, ← hes.value]
                    cases keyword.apply? es.value with
                    | none =>
                        exact .error rfl
                    | some e =>
                        dsimp only
                        rcases readClosing_alike keyword t.span t'.span es.depth hes.rest with
                          ⟨_, _, hr, hr', hfault⟩ | ⟨c, c', hr, hr', hc⟩
                        · rw [hr, hr']
                          exact .error hfault
                        · rw [hr, hr']
                          exact .ok (hc.widen _ _ _)
                · rw [hclose, hclose']
                  exact .error rfl
      | literal l =>
          exact .error (literalFault_alike holder l t.span t'.span hts)
      | _ =>
          exact .error rfl
termination_by ts => (ts.length, 0)

theorem readExprs_alike
    (limit : Nat) (holder : Connective) (depth : Nat) (last last' : Span)
    {ts ts' : List Token} (hts : AlikeTokens ts ts') :
    AlikeResults
      (readExprs limit holder depth last ts)
      (readExprs limit holder depth last' ts') := by
  rw [readExprs, readExprs]
  rcases readExpr_alike limit (some holder) depth last last' hts with
    ⟨_, _, hr, hr', hfault⟩ | ⟨⟨e, rest, _, depth, hfewer⟩, ⟨e', rest', _, depth', _⟩, hr, hr', he⟩
  · rw [hr, hr']
    exact .error hfault
  · rw [hr, hr']
    obtain ⟨rfl, hrest, rfl⟩ := he
    cases hrest with
    | nil =>
        exact .ok ⟨rfl, .nil, rfl⟩
    | @cons t t' us us' ht hus =>
        have hlength : us.length < ts.length := Nat.lt_of_succ_lt hfewer
        simp only [← ht.kind]
        split
        · rcases readExprs_alike limit holder depth t.span t'.span hus with
            ⟨_, _, hr, hr', hfault⟩ | ⟨es, es', hr, hr', hes⟩
          · rw [hr, hr']
            exact .error hfault
          · simp only [hr, hr', ← hes.value]
            exact .ok (hes.widen _ _ _)
        · exact .ok ⟨rfl, .cons ht hus, rfl⟩
termination_by (ts.length, 1)

end

/-- **Alike tokens are read as the same expression, or fail with the same fault.** -/
theorem readTokens_alike
    (limit : Nat) {ts ts' : List Token} (hts : AlikeTokens ts ts') :
    (∃ err err', readTokens limit ts = .error err ∧ readTokens limit ts' = .error err' ∧
      err.fault = err'.fault) ∨
      ∃ e, readTokens limit ts = .ok e ∧ readTokens limit ts' = .ok e := by
  cases hts with
  | nil =>
      exact Or.inl ⟨_, _, rfl, rfl, rfl⟩
  | cons ht hts =>
      simp only [readTokens]
      rcases readExpr_alike limit none 0 ⟨0, 0⟩ ⟨0, 0⟩ (.cons ht hts) with
        ⟨err, err', hr, hr', hfault⟩ | ⟨⟨e, rest, _, _, _⟩, ⟨e', rest', _, _, _⟩, hr, hr', he⟩
      · rw [hr, hr']
        exact Or.inl ⟨err, err', rfl, rfl, hfault⟩
      · rw [hr, hr']
        obtain ⟨rfl, hrest, _⟩ := he
        cases hrest with
        | nil =>
            exact Or.inr ⟨e, rfl, rfl⟩
        | cons ht _ =>
            exact Or.inl ⟨_, _, rfl, rfl, congrArg Fault.trailing ht.kind⟩

end Readers

end FieldQuery
