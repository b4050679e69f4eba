import Mathlib
import FieldQuery.Proofs.TokenLayout

/-!
# Queries put together

The texts of queries, with group separators between them and a connective in front, are
the text of the node that holds what they are read as.  Nothing is read across a seam: a
text that is lexed to its end is lexed the same in front of white space, a separator or a
parenthesis, and what its tokens derive is derived in front of all tokens but an opening
parenthesis.

**Results.**

* `OperandDerives.append`, `ExprDerives.append`: derivations in front of other tokens;
* `exists_lexing_padded`: the tokens of one query inside a longer text;
* `Joins.exists_lexing`: the tokens of several;
* `parse_node`: a node around them;
* `parse_joined`: the three connectives.
-/

namespace FieldQuery

section Continued

variable {more : List Token}

theorem not_startsWith_append
    {kind : TokenKind} {rest : List Token}
    (hrest : ¬ StartsWith kind rest) (hmore : ¬ StartsWith kind more) :
    ¬ StartsWith kind (rest ++ more) := by
  cases rest with
  | nil =>
      exact hmore
  | cons t ts =>
      exact hrest

mutual

/-- An operand is one in front of more tokens, if these do not make its last word a group. -/
theorem OperandDerives.append
    {tokens rest : List Token} {x : Operand} (hmore : ¬ StartsWith .openParen more) :
    OperandDerives tokens x rest → OperandDerives (tokens ++ more) x (rest ++ more)
  | .literal hkind =>
      .literal hkind
  | .keyword hkind hplain =>
      .keyword hkind (hplain.imp_right fun hrest => not_startsWith_append hrest hmore)
  | .group hhead hconnective hopening hmembers hclosing =>
      .group hhead hconnective hopening (hmembers.append hmore) hclosing

theorem OperandsDerive.append
    {tokens rest : List Token} {xs : List Operand} (hmore : ¬ StartsWith .openParen more) :
    OperandsDerive tokens xs rest → OperandsDerive (tokens ++ more) xs (rest ++ more)
  | .one hx =>
      .one (hx.append hmore)
  | .more hx hseparator hxs =>
      .more (hx.append hmore) hseparator (hxs.append hmore)

end

mutual

/-- An expression is one in front of more tokens, if these do not make its last word a group. -/
theorem ExprDerives.append
    {tokens rest : List Token} {e : Expr} (hmore : ¬ StartsWith .openParen more) :
    ExprDerives tokens e rest → ExprDerives (tokens ++ more) e (rest ++ more)
  | .logical hhead hopening hchildren hclosing =>
      .logical hhead hopening (hchildren.append hmore) hclosing
  | .negation hhead hopening hchild hclosing =>
      .negation hhead hopening (hchild.append hmore) hclosing
  | .presence hhead hbar hfield =>
      .presence hhead hbar (hfield.append hmore)
  | .search hhead hbar hvalue =>
      .search hhead hbar (hvalue.append hmore)
  | .compare hhead hbar hfield hbar' hvalue =>
      .compare hhead hbar (hfield.append hmore) hbar' (hvalue.append hmore)

theorem ExprsDerive.append
    {tokens rest : List Token} {es : List Expr} (hmore : ¬ StartsWith .openParen more) :
    ExprsDerive tokens es rest → ExprsDerive (tokens ++ more) es (rest ++ more)
  | .one he =>
      .one (he.append hmore)
  | .more he hseparator hes =>
      .more (he.append hmore) hseparator (hes.append hmore)

end

/-- Alike tokens derive the same expression. -/
theorem Derives.of_alike
    {tokens tokens' : List Token} {e : Expr}
    (he : Derives tokens e) (halike : AlikeTokens tokens tokens') :
    Derives tokens' e := by
  have hread := readTokens_eq_ok_iff.2 ⟨he, Nat.le_refl e.depth⟩
  rcases readTokens_alike e.depth halike with ⟨_, _, hfails, _⟩ | ⟨e', hread', hread''⟩
  · rw [hread] at hfails
    cases hfails
  · obtain rfl : e = e' := Except.ok.inj (hread.symm.trans hread')
    exact (readTokens_eq_ok_iff.1 hread'').1

end Continued

section Parts

variable {limits : Limits} {query : String} {e : Expr} {behind : List Char}

/-- The number of tokens of a query, none if it cannot be lexed to its end. -/
def countTokens (limits : Limits) (query : String) : Nat :=
  match tokenize limits query with
  | .ok tokens => tokens.length
  | .error _ => 0

/-- Inside a longer text, with white space around it, a query has tokens of the same meaning. -/
theorem exists_lexing_padded
    (hparse : parse limits query = .ok e) {before after : List Char}
    (hbefore : ∀ c ∈ before, Text.isBlank c = true)
    (hafter : ∀ c ∈ after, Text.isBlank c = true)
    (hstop : StopsWord behind) (pos : Nat) :
    ∃ tokens, IsLexing pos (before ++ (query.toList ++ after)) behind tokens ∧
      Derives tokens e ∧ tokens.length = countTokens limits query := by
  obtain ⟨tokens, hlex, hderives, _⟩ := parse_eq_ok_iff.1 hparse
  obtain ⟨tokens', hlexing, halike⟩ :=
    (lex_eq_ok_iff.1 hlex).2.exists_shift (pos + Text.byteLength before)
  have hquery : IsLexing (pos + Text.byteLength before) query.toList (after ++ behind) tokens' :=
    hlexing.of_stopsWord fun _ _ _ _ _ => stopsWord_blank_append hafter hstop
  have hgap : IsLexing pos before (query.toList ++ after ++ behind) [] :=
    isLexing_of_blank hbefore
  have hpadded := hgap.append (hquery.append (isLexing_of_blank hafter))
  rw [List.nil_append, List.append_nil] at hpadded
  refine ⟨tokens', hpadded, hderives.of_alike halike, ?_⟩
  rw [countTokens, tokenize_eq_ok_iff.2 hlex]
  exact halike.length_eq.symm

/-- A text of queries, with white space around each and a group separator between any two. -/
inductive Joins : List String → List Char → Prop
  | one
      {query : String} {before after : List Char}
      (hbefore : ∀ c ∈ before, Text.isBlank c = true)
      (hafter : ∀ c ∈ after, Text.isBlank c = true) :
      Joins [query] (before ++ (query.toList ++ after))
  | more
      {query : String} {queries : List String} {before after text : List Char}
      {separator : Char}
      (hbefore : ∀ c ∈ before, Text.isBlank c = true)
      (hafter : ∀ c ∈ after, Text.isBlank c = true)
      (hseparator : separator = '‖' ∨ separator = ',')
      (htext : Joins queries text) :
      Joins (query :: queries) (before ++ (query.toList ++ after) ++ separator :: text)

/-- **The tokens of joined queries** are those of the queries and the separators between them. -/
theorem Joins.exists_lexing
    {queries : List String} {es : List Expr} {text : List Char}
    (hjoins : Joins queries text)
    (hparsed : List.Forall₂ (fun query e => parse limits query = .ok e) queries es)
    (hstop : StopsWord behind) (pos : Nat) :
    ∃ tokens, IsLexing pos text behind tokens ∧
      tokens.length + 1 = (queries.map (countTokens limits)).sum + queries.length ∧
      ∀ more, ¬ StartsWith .openParen more → ExprsDerive (tokens ++ more) es more := by
  induction hjoins generalizing es pos with
  | @one query before after hbefore hafter =>
      obtain ⟨e, es', hparse, hnone, rfl⟩ := List.forall₂_cons_left_iff.1 hparsed
      obtain rfl := List.forall₂_nil_left_iff.1 hnone
      obtain ⟨tokens, hlexing, hderives, hlength⟩ :=
        exists_lexing_padded hparse hbefore hafter hstop pos
      refine ⟨tokens, hlexing, by simp [hlength], fun more hmore => ?_⟩
      exact .one (ExprDerives.append hmore hderives)
  | @more query queries before after text separator hbefore hafter hseparator _ ih =>
      obtain ⟨e, es', hparse, hparsed', rfl⟩ := List.forall₂_cons_left_iff.1 hparsed
      have hmark : (separator, TokenKind.groupSep) ∈ marks := by
        rcases hseparator with rfl | rfl <;> simp [marks]
      obtain ⟨first, hfirst, hderives, hlength⟩ :=
        exists_lexing_padded hparse hbefore hafter
          (stopsWord_delimiter (mem_delimiters_of_mark hmark) (text ++ behind)) pos
      let place := pos + Text.byteLength (before ++ (query.toList ++ after))
      obtain ⟨tokens, htext, hcount, hes⟩ :=
        ih hparsed' (place + Text.byteLength [separator])
      have hseparated :
          IsLexing place [separator] (text ++ behind)
            [⟨.groupSep, String.ofList [separator], place⟩] :=
        isLexing_mark hmark
      refine ⟨_, hfirst.append (hseparated.append htext), ?_, fun more hmore => ?_⟩
      · simp only [List.length_append, List.length_cons, List.length_nil, List.map_cons,
          List.sum_cons]
        omega
      · rw [List.append_assoc]
        refine .more (ExprDerives.append (by simp) hderives) rfl ?_
        exact hes more hmore

end Parts

section Nodes

variable {limits : Limits} {queries : List String} {es : List Expr} {text : List Char}

theorem Expr.depthOf_le_iff
    {n : Nat} :
    Expr.depthOf es ≤ n ↔ ∀ e ∈ es, e.depth ≤ n := by
  induction es with
  | nil =>
      simp [depthOf]
  | cons e es ih =>
      simp [depthOf, ih]

/-- The keyword of an operator spells it. -/
theorem Operator.spells_name
    (op : Operator) :
    Spells op.name.toList (.operator op) := by
  obtain ⟨hne, hends, hname⟩ := op.name_isWord
  have hword : IsWord op.name.toList :=
    ⟨hne, fun c hc => (endsWord_eq_false_iff c).1 (hends c hc)⟩
  have hspells := spells_wordKind hword
  rwa [String.ofList_toList, wordKind, hname] at hspells

/-- The tokens of a connective around joined queries, for which there is room. -/
theorem exists_lex_node
    (hjoins : Joins queries text)
    (hparsed : List.Forall₂ (fun query e => parse limits query = .ok e) queries es)
    (htokens :
      (queries.map (countTokens limits)).sum + queries.length + 2 ≤ limits.maxTokens)
    (op : Operator) :
    ∃ head opening inner closing,
      lex limits (op.name ++ "(" ++ String.ofList text ++ ")") =
        .ok (head :: opening :: (inner ++ [closing])) ∧
      head.kind = .operator op ∧ opening.kind = .openParen ∧ closing.kind = .closeParen ∧
      ExprsDerive (inner ++ [closing]) es [closing] := by
  let head : Token := ⟨.operator op, op.name, 0⟩
  let place := 0 + Text.byteLength op.name.toList
  let inside := place + Text.byteLength ['(']
  have hopening : ('(', TokenKind.openParen) ∈ marks := by simp [marks]
  have hclosing : (')', TokenKind.closeParen) ∈ marks := by simp [marks]
  obtain ⟨inner, htext, hcount, hes⟩ :=
    hjoins.exists_lexing hparsed
      (stopsWord_delimiter (mem_delimiters_of_mark hclosing) []) inside
  have hhead : IsLexing 0 op.name.toList (['('] ++ (text ++ [')']) ++ []) [head] :=
    @IsLexing.single _ head op.spells_name
      fun _ => stopsWord_delimiter (mem_delimiters_of_mark hopening) _
  have hparen :
      IsLexing place ['('] (text ++ [')'] ++ []) [⟨.openParen, String.ofList ['('], place⟩] :=
    isLexing_mark hopening
  have hend :
      IsLexing (inside + Text.byteLength text) [')'] []
        [⟨.closeParen, String.ofList [')'], inside + Text.byteLength text⟩] :=
    isLexing_mark hclosing
  have hlexing := hhead.append (hparen.append (htext.append hend))
  have hquery : (op.name ++ "(" ++ String.ofList text ++ ")").toList =
      op.name.toList ++ (['('] ++ (text ++ [')'])) := by
    simp
  refine ⟨head, _, inner, _, lex_eq_ok_iff.2 ⟨?_, hquery ▸ hlexing⟩, rfl, rfl, rfl,
    hes _ (by simp)⟩
  simp only [List.length_append, List.length_cons, List.length_nil]
  omega

/-- A connective around joined queries is read as the node that it makes of them. -/
theorem parse_node
    (hjoins : Joins queries text)
    (hparsed : List.Forall₂ (fun query e => parse limits query = .ok e) queries es)
    (hdepth : ∀ e ∈ es, e.depth + 1 ≤ limits.maxDepth)
    (htokens :
      (queries.map (countTokens limits)).sum + queries.length + 2 ≤ limits.maxTokens)
    (connective : Connective) {e : Expr} (happly : connective.apply? es = some e) :
    parse limits (connective.operator.name ++ "(" ++ String.ofList text ++ ")") = .ok e := by
  obtain ⟨head, opening, inner, closing, hlex, hhead, hopening, hclosing, hes⟩ :=
    exists_lex_node hjoins hparsed htokens connective.operator
  obtain ⟨hderives, hsize⟩ :=
    Connective.derives_of_apply? happly hhead hopening hes hclosing
  refine parse_eq_ok_iff.2 ⟨_, hlex, hderives, ?_⟩
  have hlevels : Expr.depthOf es ≤ limits.maxDepth - 1 :=
    Expr.depthOf_le_iff.2 fun e he => Nat.le_sub_one_of_lt (hdepth e he)
  obtain ⟨e', he'⟩ := List.exists_mem_of_ne_nil es hes.ne_nil
  have hroom := hdepth e' he'
  omega

/--
**Queries can be built by putting texts together.**  Let every one of several queries be
read under some limits.  Then their texts, with white space around them and group
separators between them, are read in the parentheses of `and` and `or` as the node with
what they are read as for its children, and a single one in those of `not` as its
negation, if the limits leave room for one level more, for the separators, for the
connective and for the parentheses.
-/
theorem parse_joined
    (hjoins : Joins queries text)
    (hparsed : List.Forall₂ (fun query e => parse limits query = .ok e) queries es)
    (hdepth : ∀ e ∈ es, e.depth + 1 ≤ limits.maxDepth)
    (htokens :
      (queries.map (countTokens limits)).sum + queries.length + 2 ≤ limits.maxTokens) :
    parse limits ("and(" ++ String.ofList text ++ ")") = .ok (.junction .and es) ∧
    parse limits ("or(" ++ String.ofList text ++ ")") = .ok (.junction .or es) ∧
    ∀ e, es = [e] → parse limits ("not(" ++ String.ofList text ++ ")") = .ok (.not e) := by
  refine ⟨?_, ?_, ?_⟩
  · exact parse_node hjoins hparsed hdepth htokens .and rfl
  · exact parse_node hjoins hparsed hdepth htokens .or rfl
  · rintro e rfl
    exact parse_node hjoins hparsed hdepth htokens .not rfl

/--
A text that ends with a keyword stands before a comma and one that has an escaped
backslash in it before a line break; there is no room for another token or level.
-/
theorem parse_joined_quotes :
    ∃ e e',
      parse { maxDepth := 2, maxTokens := 15 } "not(exists|not)" = .ok e ∧
      parse { maxDepth := 2, maxTokens := 15 } "equals|\"\\\\\"|lte" = .ok e' ∧
      Joins ["not(exists|not)", "equals|\"\\\\\"|lte"]
        "not(exists|not), equals|\"\\\\\"|lte\n".toList ∧
      parse { maxDepth := 2, maxTokens := 15 }
        "and(not(exists|not), equals|\"\\\\\"|lte\n)" = .ok (.junction .and [e, e']) ∧
      parse { maxDepth := 2, maxTokens := 15 }
        "or(not(exists|not), equals|\"\\\\\"|lte\n)" = .ok (.junction .or [e, e']) := by
  let e : Expr := .not (.presence .present (.literal (.bare "not")))
  let e' : Expr := .compare .equals (.literal (.ofQuoted "\\")) (.literal (.bare "lte"))
  have hparse : parse { maxDepth := 2, maxTokens := 15 } "not(exists|not)" = .ok e := by
    cbv
  have hparse' :
      parse { maxDepth := 2, maxTokens := 15 } "equals|\"\\\\\"|lte" = .ok e' := by
    cbv
  have hjoins :
      Joins ["not(exists|not)", "equals|\"\\\\\"|lte"]
        ([] ++ ("not(exists|not)".toList ++ [])
          ++ ',' :: ([' '] ++ ("equals|\"\\\\\"|lte".toList ++ ['\n']))) :=
    .more (List.forall_mem_nil _) (List.forall_mem_nil _) (Or.inr rfl)
      (.one (List.forall_mem_singleton.2 (by decide)) (List.forall_mem_singleton.2 (by decide)))
  have hboth :=
    parse_joined hjoins (.cons hparse (.cons hparse' .nil)) (by decide) (by cbv)
  exact ⟨e, e', hparse, hparse', hjoins, hboth.1, hboth.2.1⟩

end Nodes

end FieldQuery
