import FieldQuery.Proofs.TokenSequence

/-!
# Tighter limits

A query is read twice, once under limits that are no looser than the others.  Up to
the first parenthesis or token that only the looser limits allow, both readings take
the same steps.  There the tighter one ends with a limit exceeded; if there is no
such place, both return the same.

**Results.**

* `readOperand_restricts`, `readBarred_restricts`, `readExpr_restricts`: the readers;
* `lex_restricts`, `parse_restricts`: tokens, and whole queries;
* `parse_under_tighter_limits`: which queries stay readable, and as what.
-/

namespace FieldQuery

section Results

variable {α : Type}

/-- The first result is the second one, or a limit was exceeded on the way to it. -/
def Restricts (r r' : Except Located α) : Prop :=
  r = r' ∨ ∃ err, r = .error err ∧ err.fault.kind = .limitExceeded

theorem Restricts.refl (r : Except Located α) :
    Restricts r r :=
  Or.inl rfl

theorem Restricts.exceeded
    {err : Located} (herr : err.fault.kind = .limitExceeded) (r : Except Located α) :
    Restricts (.error err) r :=
  Or.inr ⟨err, rfl, herr⟩

end Results

section Readers

variable {limit limit' : Nat}

/-- A parenthesis that is allowed by the tighter limit is allowed by the looser one. -/
theorem readOpening_restricts
    (hlimit : limit ≤ limit')
    (keyword : Connective) (depth : Nat) (last : Span) (tokens : List Token) :
    Restricts
      (readOpening limit keyword depth last tokens)
      (readOpening limit' keyword depth last tokens) := by
  cases tokens with
  | nil =>
      exact .refl _
  | cons t ts =>
      simp only [readOpening]
      split
      · by_cases hdeep : limit < depth + 1
        · rw [if_pos hdeep]
          exact .exceeded rfl _
        · rw [if_neg hdeep, if_neg (by omega)]
          exact .refl _
      · exact .refl _

mutual

theorem readOperand_restricts
    (hlimit : limit ≤ limit') (depth : Nat) (last : Span) :
    ∀ tokens : List Token,
      Restricts
        (readOperand limit depth last tokens)
        (readOperand limit' depth last tokens)
  | [] => by
      rw [readOperand, readOperand]
      exact .refl _
  | t :: ts => by
      rw [readOperand, readOperand]
      cases t.kind with
      | operator op =>
          dsimp only
          split
          · rename_i connective _ _ _
            -- only here the limit is looked at; from here on the readings agree or the first ended
            rcases readOpening_restricts hlimit connective depth t.span ts with
              hopen | ⟨err, hopen, hexceeded⟩
            · rw [hopen]
              cases readOpening limit' connective depth t.span ts with
              | error err =>
                  exact .refl _
              | ok o =>
                  dsimp only
                  cases next? .closeParen o.rest with
                  | some close =>
                      exact .refl _
                  | none =>
                      have hfewer := o.fewer
                      dsimp only
                      rcases readOperands_restricts hlimit o.depth o.last o.rest with
                        hxs | ⟨err, hxs, hexceeded⟩
                      · rw [hxs]
                        exact .refl _
                      · rw [hxs]
                        exact .exceeded hexceeded _
            · rw [hopen]
              exact .exceeded hexceeded _
          · exact .refl _
      | _ =>
          exact .refl _
termination_by tokens => (tokens.length, 0)

theorem readOperands_restricts
    (hlimit : limit ≤ limit') (depth : Nat) (last : Span) (tokens : List Token) :
    Restricts
      (readOperands limit depth last tokens)
      (readOperands limit' depth last tokens) := by
  rw [readOperands, readOperands]
  rcases readOperand_restricts hlimit depth last tokens with hx | ⟨err, hx, hexceeded⟩
  · rw [hx]
    split
    · exact .refl _
    · exact .refl _
    · rename_i x t ts _ depth hfewer _
      have hts : ts.length < tokens.length := Nat.lt_of_succ_lt hfewer
      split
      · dsimp only
        rcases readOperands_restricts hlimit depth t.span ts with
          hxs | ⟨err, hxs, hexceeded⟩
        · rw [hxs]
          exact .refl _
        · rw [hxs]
          exact .exceeded hexceeded _
      · exact .refl _
  · rw [hx]
    exact .exceeded hexceeded _
termination_by (tokens.length, 1)

end

theorem readBarred_restricts
    (hlimit : limit ≤ limit') (depth : Nat) (last : Span) :
    ∀ tokens : List Token,
      Restricts
        (readBarred limit depth last tokens)
        (readBarred limit' depth last tokens)
  | [] => by
      rw [readBarred, readBarred]
      exact .refl _
  | t :: ts => by
      rw [readBarred, readBarred]
      split
      · rcases readOperand_restricts hlimit depth t.span ts with
          hx | ⟨err, hx, hexceeded⟩
        · rw [hx]
          cases readOperand limit' depth t.span ts with
          | error err =>
              exact .refl _
          | ok x =>
              have hfewer := x.fewer
              dsimp only
              rcases readBarred_restricts hlimit x.depth x.last x.rest with
                hxs | ⟨err, hxs, hexceeded⟩
              · rw [hxs]
                exact .refl _
              · rw [hxs]
                exact .exceeded hexceeded _
        · rw [hx]
          exact .exceeded hexceeded _
      · exact .refl _
termination_by tokens => tokens.length

theorem readOperation_restricts
    (hlimit : limit ≤ limit')
    (op : Operator) (head : Span) (depth : Nat) (tokens : List Token) :
    Restricts
      (readOperation limit op head depth tokens)
      (readOperation limit' op head depth tokens) := by
  unfold readOperation
  rcases readBarred_restricts hlimit depth head tokens with hxs | ⟨err, hxs, hexceeded⟩
  · rw [hxs]
    exact .refl _
  · rw [hxs]
    exact .exceeded hexceeded _

mutual

theorem readExpr_restricts
    (hlimit : limit ≤ limit') (holder : Option Connective) (depth : Nat) (last : Span) :
    ∀ tokens : List Token,
      Restricts
        (readExpr limit holder depth last tokens)
        (readExpr limit' holder depth last tokens)
  | [] => by
      rw [readExpr, readExpr]
      exact .refl _
  | t :: ts => by
      rw [readExpr, readExpr]
      cases t.kind with
      | operator op =>
          dsimp only
          cases op.connective? with
          | none =>
              exact readOperation_restricts hlimit op t.span depth ts
          | some keyword =>
              dsimp only
              rcases readOpening_restricts hlimit keyword depth t.span ts with
                hopen | ⟨err, hopen, hexceeded⟩
              · rw [hopen]
                cases readOpening limit' keyword depth t.span ts with
                | error err =>
                    exact .refl _
                | ok o =>
                    dsimp only
                    cases next? .closeParen o.rest with
                    | some close =>
                        exact .refl _
                    | none =>
                        have hfewer := o.fewer
                        dsimp only
                        rcases readExprs_restricts hlimit keyword o.depth o.last o.rest with
                          hes | ⟨err, hes, hexceeded⟩
                        · rw [hes]
                          exact .refl _
                        · rw [hes]
                          exact .exceeded hexceeded _
              · rw [hopen]
                exact .exceeded hexceeded _
      | _ =>
          exact .refl _
termination_by tokens => (tokens.length, 0)

theorem readExprs_restricts
    (hlimit : limit ≤ limit') (holder : Connective) (depth : Nat) (last : Span)
    (tokens : List Token) :
    Restricts
      (readExprs limit holder depth last tokens)
      (readExprs limit' holder depth last tokens) := by
  rw [readExprs, readExprs]
  rcases readExpr_restricts hlimit (some holder) depth last tokens with
    he | ⟨err, he, hexceeded⟩
  · rw [he]
    split
    · exact .refl _
    · exact .refl _
    · rename_i e t ts _ depth hfewer _
      have hts : ts.length < tokens.length := Nat.lt_of_succ_lt hfewer
      split
      · dsimp only
        rcases readExprs_restricts hlimit holder depth t.span ts with
          hes | ⟨err, hes, hexceeded⟩
        · rw [hes]
          exact .refl _
        · rw [hes]
          exact .exceeded hexceeded _
      · exact .refl _
  · rw [he]
    exact .exceeded hexceeded _
termination_by (tokens.length, 1)

end

theorem readTokens_restricts
    (hlimit : limit ≤ limit') (tokens : List Token) :
    Restricts (readTokens limit tokens) (readTokens limit' tokens) := by
  cases tokens with
  | nil =>
      exact .refl _
  | cons t ts =>
      simp only [readTokens]
      rcases readExpr_restricts hlimit none 0 ⟨0, 0⟩ (t :: ts) with
        hp | ⟨err, hp, hexceeded⟩
      · rw [hp]
        exact .refl _
      · rw [hp]
        exact .exceeded hexceeded _

end Readers

section Queries

variable {limits limits' : Limits}

/-- With less room the same tokens are read, unless there are too many of them. -/
theorem lex_restricts
    (htokens : limits.maxTokens ≤ limits'.maxTokens) (query : String) :
    Restricts (lex limits query) (lex limits' query) := by
  rcases lexing_cases limits.maxTokens query.toList with
    ⟨tokens, hlength, hlexing⟩ | ⟨t, ht⟩ | ⟨front, rest, hopen⟩
  · left
    rw [lex_of_isLexing hlexing hlength, lex_of_isLexing hlexing (hlength.trans htokens)]
  · rw [lex_of_tokenBehind ht]
    exact .exceeded rfl _
  · left
    rw [lex_of_quoteLeftOpen hopen, lex_of_quoteLeftOpen (hopen.mono htokens)]

theorem read_restricts
    (hdepth : limits.maxDepth ≤ limits'.maxDepth)
    (htokens : limits.maxTokens ≤ limits'.maxTokens) (query : String) :
    Restricts (read limits query) (read limits' query) := by
  unfold read
  rcases lex_restricts htokens query with hlex | ⟨err, hlex, hexceeded⟩
  · rw [hlex]
    cases lex limits' query with
    | error err =>
        exact .refl _
    | ok tokens =>
        exact readTokens_restricts hdepth tokens
  · rw [hlex]
    exact .exceeded hexceeded _

/-- Under tighter limits a query is read as before, or a limit is exceeded. -/
theorem parse_restricts
    (hdepth : limits.maxDepth ≤ limits'.maxDepth)
    (htokens : limits.maxTokens ≤ limits'.maxTokens) (query : String) :
    parse limits query = parse limits' query
      ∨
    ∃ err, parse limits query = .error err ∧ err.kind = .limitExceeded := by
  unfold parse
  rcases read_restricts hdepth htokens query with hread | ⟨err, hread, hexceeded⟩
  · left
    rw [hread]
  · right
    rw [hread]
    exact ⟨_, rfl, hexceeded⟩

/--
**Limits only restrict, by exactly what the expression measures.**  A query that is
read under looser limits is read as the same expression under tighter ones if its
tokens are no more and its expression no deeper than these allow; if not, a limit is
exceeded.  A query that is not read fails in the same way, or a limit is exceeded.
-/
theorem parse_under_tighter_limits
    (hdepth : limits.maxDepth ≤ limits'.maxDepth)
    (htokens : limits.maxTokens ≤ limits'.maxTokens) (query : String) :
    (∀ e, parse limits' query = .ok e →
      ∃ tokens, IsLexing 0 query.toList [] tokens ∧
        (tokens.length ≤ limits.maxTokens ∧ e.depth ≤ limits.maxDepth →
          parse limits query = .ok e) ∧
        (¬ (tokens.length ≤ limits.maxTokens ∧ e.depth ≤ limits.maxDepth) →
          ∃ err, parse limits query = .error err ∧ err.kind = .limitExceeded))
      ∧
    (∀ err, parse limits' query = .error err →
      parse limits query = .error err
        ∨
      ∃ err', parse limits query = .error err' ∧ err'.kind = .limitExceeded)
      ∧
    (∀ e, parse limits query = .ok e → e.depth ≤ limits.maxDepth) := by
  have hrestricts := parse_restricts hdepth htokens query
  refine ⟨fun e hparse' => ?_, fun err hparse' => ?_, fun e hparse => ?_⟩
  · obtain ⟨tokens, hlex, hderives, _⟩ := parse_eq_ok_iff.1 hparse'
    have hlexing := (lex_eq_ok_iff.1 hlex).2
    refine ⟨tokens, hlexing, ?_, fun hover => ?_⟩
    · rintro ⟨hlength, hfits⟩
      exact parse_eq_ok_iff.2 ⟨tokens, lex_of_isLexing hlexing hlength, hderives, hfits⟩
    · rcases hrestricts with hsame | hexceeded
      · -- the tighter limits would have admitted the expression
        rw [hparse'] at hsame
        obtain ⟨tokens', hlex', _, hfits⟩ := parse_eq_ok_iff.1 hsame
        obtain ⟨hlength', hlexing'⟩ := lex_eq_ok_iff.1 hlex'
        obtain rfl := hlexing.unique hlexing'
        exact absurd ⟨hlength', hfits⟩ hover
      · exact hexceeded
  · rw [hparse'] at hrestricts
    exact hrestricts
  · obtain ⟨_, _, _, hfits⟩ := parse_eq_ok_iff.1 hparse
    exact hfits

/-- Two negations are read under the usual limits, and not where one parenthesis may be open. -/
theorem parse_under_tighter_limits_negations :
    ∃ (limits limits' : Limits) (e : Expr),
      limits.maxDepth ≤ limits'.maxDepth ∧
      limits.maxTokens ≤ limits'.maxTokens ∧
      parse limits' "not(not(exists|a))" = .ok e ∧
      limits.maxDepth < e.depth ∧
      ∃ err, parse limits "not(not(exists|a))" = .error err ∧ err.kind = .limitExceeded := by
  have hparse :
      parse {} "not(not(exists|a))" =
        .ok (.not (.not (.presence .present (.literal ⟨"a", .string "a", false⟩)))) := by
    cbv
  refine ⟨⟨1, 4096⟩, {}, _, by decide, by decide, hparse, by decide, ?_⟩
  obtain ⟨tokens, _, _, hexceeded⟩ :=
    (@parse_under_tighter_limits ⟨1, 4096⟩ {} (by decide) (by decide) _).1 _ hparse
  refine hexceeded ?_
  rintro ⟨_, hfits⟩
  exact absurd hfits (by decide)

end Queries

end FieldQuery
