import Mathlib
import FieldQuery.Proofs.ReaderCompleteness

/-!
# Queries and the grammar

A query is read as an expression exactly when its tokens as a whole derive it and
its nesting is within the limit.

**Results.**

* `readTokens_eq_ok_iff`, `parse_eq_ok_iff`: what a query is read as;
* `Derives.unique`: the grammar is not ambiguous;
* `parse_iff_derives`: where the limit cannot matter, reading is deriving.
-/

namespace FieldQuery

section WholeQueries

/-- Reading a whole query succeeds on what the grammar derives and the limit allows. -/
theorem readTokens_eq_ok_iff
    {limit : Nat} {tokens : List Token} {e : Expr} :
    readTokens limit tokens = .ok e ↔ Derives tokens e ∧ e.depth ≤ limit := by
  cases tokens with
  | nil =>
      constructor
      · intro hread
        cases hread
      · rintro ⟨hderives, _⟩
        cases hderives
  | cons t ts =>
      constructor
      · intro hread
        simp only [readTokens] at hread
        cases hp : readExpr limit none 0 ⟨0, 0⟩ (t :: ts) with
        | error err =>
            simp [hp] at hread
        | ok p =>
            simp only [hp] at hread
            obtain ⟨hderived, _, hfits⟩ := readExpr_sound limit none 0 ⟨0, 0⟩ hp
            cases hrest : p.rest with
            | nil =>
                simp only [hrest] at hread
                cases hread
                rw [hrest] at hderived
                refine ⟨hderived, ?_⟩
                simpa using hfits (Nat.zero_le limit)
            | cons u us =>
                simp [hrest] at hread
      · rintro ⟨hderives, hdepth⟩
        obtain ⟨_, _, hread⟩ :=
          ExprDerives.reads hderives (not_startsWith_nil _) (not_startsWith_nil _)
            limit none 0 ⟨0, 0⟩ (by omega)
        simp only [readTokens, hread]

/-- No sequence of tokens is two expressions. -/
theorem Derives.unique
    {tokens : List Token} {e e' : Expr}
    (he : Derives tokens e) (he' : Derives tokens e') :
    e = e' := by
  have hread :=
    readTokens_eq_ok_iff.2 ⟨he, Nat.le_max_left e.depth e'.depth⟩
  have hread' :=
    readTokens_eq_ok_iff.2 ⟨he', Nat.le_max_right e.depth e'.depth⟩
  rw [hread] at hread'
  exact Except.ok.inj hread'

/-- An expression is nested no more deeply than it has tokens. -/
theorem Derives.depth_le_length
    {tokens : List Token} {e : Expr}
    (he : Derives tokens e) :
    e.depth ≤ tokens.length := by
  have hcount := ExprDerives.length_eq he
  have hdepth := e.depth_le_tokenCount
  simp only [List.length_nil] at hcount
  omega

theorem tokenize_eq_ok_iff
    {limits : Limits} {query : String} {tokens : List Token} :
    tokenize limits query = .ok tokens ↔ lex limits query = .ok tokens := by
  unfold tokenize
  cases lex limits query <;> simp [Except.mapError]

/-- A query parses to what its tokens derive within the depth allowed. -/
theorem parse_eq_ok_iff
    {limits : Limits} {query : String} {e : Expr} :
    parse limits query = .ok e ↔
      ∃ tokens, lex limits query = .ok tokens ∧ Derives tokens e ∧
        e.depth ≤ limits.maxDepth := by
  unfold parse read
  cases hlex : lex limits query with
  | error err =>
      simp [Except.mapError]
  | ok tokens =>
      simp only [Except.ok.injEq, exists_eq_left', ← readTokens_eq_ok_iff]
      cases readTokens limits.maxDepth tokens <;> simp [Except.mapError]

/--
**Reading accepts the grammar.**  With room for as many open parentheses as there
are tokens, a query is read as exactly what its tokens derive; no tokens derive
two expressions; and where nothing is derived there is a syntax error.
-/
theorem parse_iff_derives
    {limits : Limits} {query : String} {tokens : List Token}
    (htokens : tokenize limits query = .ok tokens)
    (hdepth : tokens.length ≤ limits.maxDepth) :
    (∀ e, parse limits query = .ok e ↔ Derives tokens e)
      ∧
    (∀ (ts : List Token) (e e' : Expr), Derives ts e → Derives ts e' → e = e')
      ∧
    ((∀ e, ¬ Derives tokens e) → ∃ err : SyntaxError, parse limits query = .error err) := by
  have hiff : ∀ e, parse limits query = .ok e ↔ Derives tokens e := by
    intro e
    rw [tokenize_eq_ok_iff] at htokens
    rw [parse_eq_ok_iff]
    constructor
    · rintro ⟨tokens', hlex, hderives, _⟩
      rw [htokens] at hlex
      cases hlex
      exact hderives
    · intro hderives
      exact ⟨tokens, htokens, hderives, Nat.le_trans hderives.depth_le_length hdepth⟩
  refine ⟨hiff, fun _ _ _ => Derives.unique, ?_⟩
  intro hnone
  cases hparse : parse limits query with
  | error err =>
      exact ⟨err, rfl⟩
  | ok e =>
      exact (hnone e ((hiff e).1 hparse)).elim

/-- Connectives as names, as the head of a node and as the head of a group. -/
theorem parse_iff_derives_connectives :
    ∃ tokens,
      tokenize {} "or(missing|not‖exists|not(or,and))" = .ok tokens ∧
      tokens.length ≤ ({} : Limits).maxDepth ∧
      (∀ e, parse {} "or(missing|not‖exists|not(or,and))" = .ok e ↔ Derives tokens e) := by
  have htokens :
      tokenize {} "or(missing|not‖exists|not(or,and))" = .ok
        [⟨.operator (.junction .or), "or", 0⟩, ⟨.openParen, "(", 2⟩,
          ⟨.operator (.presence .missing), "missing", 3⟩, ⟨.fieldSep, "|", 10⟩,
          ⟨.operator .not, "not", 11⟩, ⟨.groupSep, "‖", 14⟩,
          ⟨.operator (.presence .present), "exists", 17⟩, ⟨.fieldSep, "|", 23⟩,
          ⟨.operator .not, "not", 24⟩, ⟨.openParen, "(", 27⟩,
          ⟨.operator (.junction .or), "or", 28⟩, ⟨.groupSep, ",", 30⟩,
          ⟨.operator (.junction .and), "and", 31⟩, ⟨.closeParen, ")", 34⟩,
          ⟨.closeParen, ")", 35⟩] := by
    cbv
  exact ⟨_, htokens, by decide, (parse_iff_derives htokens (by decide)).1⟩

end WholeQueries

end FieldQuery
