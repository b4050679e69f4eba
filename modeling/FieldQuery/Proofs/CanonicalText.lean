import FieldQuery.Proofs.QueryGrammar
import FieldQuery.Proofs.Spelling

/-!
# Canonical text

The canonical text of an expression is one of the queries that read as it, if any
query does.

**Invariant.**  Behind the canonical text of a part stands the rest of a text.
If the tokens of the rest satisfy some condition, wherever the rest begins, then
the tokens of the whole are the part followed by tokens that satisfy it.  The rest
has to stop a word and must not open a parenthesis, or it would change the part.

**Results.**

* `Operand.lexes`, `Expr.lexes`: the tokens of a canonical text derive the part;
* `Expr.readable_of_parse`: what a query is read as satisfies four conditions;
* `canonical_inverse_of_parse`: what satisfies them is read from its canonical text.
-/

namespace FieldQuery

section Lexes

/--
From every byte on, the text has tokens for which there is room, and of these
the condition holds.
-/
def Lexes
    (limit room : Nat) (cs : List Char) (cond : List Token → Prop) : Prop :=
  ∀ pos, ∃ tokens, tokensFrom limit room pos cs = .ok tokens ∧ cond tokens

/-- The condition on the first token and one on those behind it. -/
def Headed
    (first : Token → Prop) (behind : List Token → Prop) (tokens : List Token) : Prop :=
  ∃ t ts, tokens = t :: ts ∧ first t ∧ behind ts

theorem Headed.imp
    {first first' : Token → Prop} {behind : List Token → Prop} {tokens : List Token}
    (htokens : Headed first behind tokens)
    (himp : ∀ t, first t → first' t) :
    Headed first' behind tokens := by
  obtain ⟨t, ts, heq, hfirst, hbehind⟩ := htokens
  exact ⟨t, ts, heq, himp t hfirst, hbehind⟩

theorem Lexes.nil
    (limit room : Nat) {cond : List Token → Prop} (hcond : cond []) :
    Lexes limit room [] cond := by
  intro pos
  exact ⟨[], by rw [tokensFrom], hcond⟩

theorem Lexes.mono
    {limit room : Nat} {cs : List Char} {cond cond' : List Token → Prop}
    (hlexes : Lexes limit room cs cond)
    (himp : ∀ tokens, cond tokens → cond' tokens) :
    Lexes limit room cs cond' := by
  intro pos
  obtain ⟨tokens, hread, hcond⟩ := hlexes pos
  exact ⟨tokens, hread, himp tokens hcond⟩

/-- One token more in front of a text. -/
theorem Lexes.cons
    {limit room : Nat} {c : Char} {cs : List Char} {x : Lexeme}
    {cond : List Token → Prop}
    (hblank : Text.isBlank c = false) (hx : readLexeme c cs = some x)
    (hrest : Lexes limit room x.rest cond) :
    Lexes limit (room + 1) (c :: cs)
      (Headed (fun t => t.kind = x.kind ∧ t.text = String.ofList x.text) cond) := by
  intro pos
  obtain ⟨tokens, hread, hcond⟩ :=
    hrest (Token.stop ⟨x.kind, String.ofList x.text, pos⟩)
  refine ⟨⟨x.kind, String.ofList x.text, pos⟩ :: tokens, ?_, _, _, rfl, ⟨rfl, rfl⟩, hcond⟩
  rw [tokensFrom_lexeme hblank hx]
  rw [hread]
  rfl

variable {limit room : Nat} {cs : List Char} {cond : List Token → Prop}

theorem Lexes.mark
    {c : Char} {kind : TokenKind} (hmark : (c, kind) ∈ marks)
    (hrest : Lexes limit room cs cond) :
    Lexes limit (room + 1) (c :: cs) (Headed (fun t => t.kind = kind) cond) := by
  have hblank : Text.isBlank c = false :=
    isBlank_delimiter (mem_delimiters_of_mark hmark)
  have hlexes := Lexes.cons hblank (readLexeme_mark hmark cs) hrest
  exact hlexes.mono fun _ htokens => htokens.imp fun _ ht => ht.1

theorem Lexes.word
    {word : List Char} (hne : word ≠ [])
    (hword : ∀ c ∈ word, endsWord c = false) (hstop : StopsWord cs)
    (hrest : Lexes limit room cs cond) :
    Lexes limit (room + 1) (word ++ cs)
      (Headed
        (fun t => t.kind = wordKind (String.ofList word) ∧ t.text = String.ofList word)
        cond) := by
  cases word with
  | nil =>
      exact absurd rfl hne
  | cons c word =>
      have hc := (endsWord_eq_false_iff c).1 (hword c (by simp))
      exact Lexes.cons hc.1 (readLexeme_word hword hstop) hrest

theorem Lexes.quoted
    (raw : List Char) (hrest : Lexes limit room cs cond) :
    Lexes limit (room + 1)
      ('"' :: (raw.flatMap Literal.escapeChar ++ '"' :: cs))
      (Headed (fun t => t.kind = .literal (.ofQuoted (String.ofList raw))) cond) := by
  have hlexes := Lexes.cons (by decide) (readLexeme_quoted raw cs) hrest
  exact hlexes.mono fun _ htokens => htokens.imp fun _ ht => ht.1

/-- A keyword that something stops is read as its operator. -/
theorem Lexes.keyword
    (op : Operator) (hstop : StopsWord cs)
    (hrest : Lexes limit room cs cond) :
    Lexes limit (room + 1) (op.name.toList ++ cs)
      (Headed (fun t => t.kind = .operator op) cond) := by
  obtain ⟨hne, hword, hname⟩ := op.name_isWord
  refine (Lexes.word hne hword hstop hrest).mono fun _ htokens => htokens.imp ?_
  intro t ht
  simpa [wordKind, hname] using ht.1

/-- The rest of a text behind a part of it: it neither goes on with a word nor opens a group. -/
structure Follows
    (limit room : Nat) (cs : List Char) (cond : List Token → Prop) : Prop where
  stops : StopsWord cs
  plain : ∀ tokens, cond tokens → ¬ StartsWith .openParen tokens
  lexes : Lexes limit room cs cond

theorem Follows.nil
    (limit room : Nat) : Follows limit room [] (fun tokens => tokens = []) := by
  refine ⟨stopsWord_nil, ?_, Lexes.nil _ _ rfl⟩
  rintro _ rfl
  exact not_startsWith_nil _

/-- Any mark but an opening parenthesis can follow a part. -/
theorem Lexes.follows
    (hrest : Lexes limit room cs cond)
    {c : Char} {kind : TokenKind} (hmark : (c, kind) ∈ marks) (hkind : kind ≠ .openParen) :
    Follows limit (room + 1) (c :: cs) (Headed (fun t => t.kind = kind) cond) := by
  constructor
  · exact stopsWord_delimiter (mem_delimiters_of_mark hmark) cs
  · rintro _ ⟨t, ts, rfl, hfirst, _⟩
    simpa [hfirst] using hkind
  · exact hrest.mark hmark

theorem Lexes.closing
    (hrest : Lexes limit room cs cond) :
    Follows limit (room + 1) (')' :: cs) (Headed (fun t => t.kind = .closeParen) cond) :=
  hrest.follows (by simp [marks]) (by simp)

theorem Lexes.separator
    (hrest : Lexes limit room cs cond) :
    Follows limit (room + 1) ('‖' :: cs) (Headed (fun t => t.kind = .groupSep) cond) :=
  hrest.follows (by simp [marks]) (by simp)

theorem Lexes.bar
    (hrest : Lexes limit room cs cond) :
    Follows limit (room + 1) ('|' :: cs) (Headed (fun t => t.kind = .fieldSep) cond) :=
  hrest.follows (by simp [marks]) (by simp)

/-- The canonical text of a literal is read as that literal. -/
theorem Literal.Spelt.lexes
    {l : Literal} (hl : l.Spelt) (hrest : Follows limit room cs cond) :
    Lexes limit (room + 1) (l.canonical.toList ++ cs)
      (fun tokens => ∃ rest, OperandDerives tokens (.literal l) rest ∧ cond rest) := by
  cases hquoted : l.quoted with
  | true =>
      have hcanonical :
          l.canonical.toList ++ cs =
            '"' :: (l.raw.toList.flatMap Literal.escapeChar ++ '"' :: cs) := by
        simp [Literal.canonical, hquoted]
      rw [hcanonical]
      refine (Lexes.quoted l.raw.toList hrest.lexes).mono ?_
      rintro _ ⟨t, ts, rfl, hkind, hcond⟩
      rw [String.ofList_toList, ← hl.eq_ofQuoted hquoted] at hkind
      exact ⟨ts, .literal hkind, hcond⟩
  | false =>
      obtain ⟨hne, _, hword⟩ := hl.bare hquoted
      have hcanonical : l.canonical = l.raw := by
        simp [Literal.canonical, hquoted]
      rw [hcanonical]
      have hlexes :=
        Lexes.word (by simpa using hne)
          (fun c hc => (endsWord_eq_false_iff c).2 (hword c hc)) hrest.stops hrest.lexes
      refine hlexes.mono ?_
      rintro _ ⟨t, ts, rfl, ⟨hkind, htext⟩, hcond⟩
      rw [String.ofList_toList] at hkind htext
      refine ⟨ts, ?_, hcond⟩
      rw [hl.eq_bare hquoted]
      unfold wordKind at hkind
      split at hkind
      · rw [← htext]
        exact .keyword hkind (Or.inr (hrest.plain ts hcond))
      · exact .literal hkind

/-- A keyword and parentheses around what stands inside them. -/
theorem Lexes.node
    (op : Operator) {inner : List Char} {count : Nat}
    {derives : List Token → List Token → Prop}
    (hinner :
      Lexes limit (room + 1 + count) (inner ++ ')' :: cs)
        (fun tokens => ∃ rest, derives tokens rest ∧
          Headed (fun t => t.kind = .closeParen) cond rest)) :
    Lexes limit (room + (3 + count)) (op.name.toList ++ '(' :: (inner ++ ')' :: cs))
      (fun tokens => ∃ head opening behind closing rest,
        tokens = head :: opening :: behind ∧ head.kind = .operator op ∧
          opening.kind = .openParen ∧ derives behind (closing :: rest) ∧
          closing.kind = .closeParen ∧ cond rest) := by
  have hopening :
      Lexes limit (room + 1 + count + 1) ('(' :: (inner ++ ')' :: cs)) _ :=
    hinner.mark (show ('(', TokenKind.openParen) ∈ marks by simp [marks])
  have hroom : room + (3 + count) = room + 1 + count + 1 + 1 := by
    omega
  rw [hroom]
  refine (hopening.keyword op (stopsWord_delimiter (by simp [delimiters]) _)).mono ?_
  rintro _ ⟨head, _, rfl, hhead, opening, behind, rfl, hkind, _, hderives,
    closing, rest, rfl, hclosing, hcond⟩
  exact ⟨head, opening, behind, closing, rest, rfl, hhead, hkind, hderives, hclosing, hcond⟩

end Lexes

section Operands

theorem Connective.name_operator (connective : Connective) :
    connective.operator.name = connective.name := by
  cases connective <;> rfl

mutual

/-- The canonical text of an operand is read as that operand. -/
theorem Operand.lexes :
    ∀ x : Operand, x.gap? = none → (∀ l ∈ x.literals, l.Spelt) →
      ∀ {limit room : Nat} {cs : List Char} {cond : List Token → Prop},
        Follows limit room cs cond →
        Lexes limit (room + x.tokenCount) (x.canonical.toList ++ cs)
          (fun tokens => ∃ rest, OperandDerives tokens x rest ∧ cond rest)
  | .literal l => by
      intro _ hspelt limit room cs cond hrest
      have hl : l.Spelt := hspelt l (by simp [literals])
      exact hl.lexes hrest
  | .group connective members => by
      intro hgap hspelt limit room cs cond hrest
      have hne : members ≠ [] := by
        rintro rfl
        cases hgap
      rw [gap?_group connective hne] at hgap
      have hmembers :=
        Operand.lexesAll members hne hgap hspelt hrest.lexes.closing
      have htext :
          (group connective members).canonical.toList ++ cs =
            connective.operator.name.toList
              ++ '(' :: ((canonicalOf members).toList ++ ')' :: cs) := by
        simp [canonical, Connective.name_operator]
      rw [htext]
      refine (hmembers.node connective.operator).mono ?_
      rintro _ ⟨head, opening, behind, closing, rest, rfl, hhead, hopening, hderives,
        hclosing, hcond⟩
      exact
        ⟨rest, .group hhead connective.connective?_operator hopening hderives hclosing, hcond⟩

/-- The canonical texts of operands with separators between them are read as these operands. -/
theorem Operand.lexesAll :
    ∀ xs : List Operand, xs ≠ [] → gapIn? xs = none → (∀ l ∈ literalsOf xs, l.Spelt) →
      ∀ {limit room : Nat} {cs : List Char} {cond : List Token → Prop},
        Follows limit room cs cond →
        Lexes limit (room + tokenCountOf xs) ((canonicalOf xs).toList ++ cs)
          (fun tokens => ∃ rest, OperandsDerive tokens xs rest ∧ cond rest)
  | [] => by
      intro hne
      exact absurd rfl hne
  | [x] => by
      intro _ hgap hspelt limit room cs cond hrest
      have hgap' : x.gap? = none := by
        simpa [gapIn?] using hgap
      have hx := Operand.lexes x hgap' (by simpa [literalsOf] using hspelt) hrest
      refine hx.mono ?_
      rintro tokens ⟨rest, hderives, hcond⟩
      exact ⟨rest, .one hderives, hcond⟩
  | x :: y :: ys => by
      intro _ hgap hspelt limit room cs cond hrest
      obtain ⟨hgapx, hgapys⟩ : x.gap? = none ∧ gapIn? (y :: ys) = none := by
        simpa [gapIn?] using hgap
      have hmore :=
        Operand.lexesAll (y :: ys) (by simp) hgapys
          (fun l hl => hspelt l (List.mem_append_right _ hl)) hrest
      have hx :=
        Operand.lexes x hgapx (fun l hl => hspelt l (List.mem_append_left _ hl))
          hmore.separator
      have htext :
          (canonicalOf (x :: y :: ys)).toList ++ cs =
            x.canonical.toList ++ '‖' :: ((canonicalOf (y :: ys)).toList ++ cs) := by
        simp [canonicalOf]
      have hroom :
          room + tokenCountOf (x :: y :: ys) =
            room + tokenCountOf (y :: ys) + 1 + x.tokenCount := by
        rw [tokenCountOf_cons x (by simp)]
        omega
      rw [htext, hroom]
      refine hx.mono ?_
      rintro tokens ⟨_, hderives, separator, behind, rfl, hseparator, rest, hderives', hcond⟩
      exact ⟨rest, .more hderives hseparator hderives', hcond⟩

end

end Operands

section Expressions

variable {limit room : Nat} {cs : List Char} {cond : List Token → Prop}

/-- An operator, a bar and the first operand behind it. -/
theorem Operand.lexes_barred
    (op : Operator) (x : Operand)
    (hgap : x.gap? = none) (hspelt : ∀ l ∈ x.literals, l.Spelt)
    (hrest : Follows limit room cs cond) :
    Lexes limit (room + (2 + x.tokenCount))
      (op.name.toList ++ '|' :: (x.canonical.toList ++ cs))
      (fun tokens => ∃ head bar behind rest, tokens = head :: bar :: behind ∧
        head.kind = .operator op ∧ bar.kind = .fieldSep ∧
          OperandDerives behind x rest ∧ cond rest) := by
  have hbar := (x.lexes hgap hspelt hrest).bar
  have hroom : room + (2 + x.tokenCount) = room + x.tokenCount + 1 + 1 := by
    omega
  rw [hroom]
  refine (hbar.lexes.keyword op hbar.stops).mono ?_
  rintro _ ⟨head, _, rfl, hhead, bar, behind, rfl, hkind, rest, hderives, hcond⟩
  exact ⟨head, bar, behind, rest, rfl, hhead, hkind, hderives, hcond⟩

mutual

/-- The canonical text of an expression is read as that expression. -/
theorem Expr.lexes :
    ∀ e : Expr, e.gap? = none → (∀ l ∈ e.literals, l.Spelt) →
      ∀ {limit room : Nat} {cs : List Char} {cond : List Token → Prop},
        Follows limit room cs cond →
        Lexes limit (room + e.tokenCount) (e.canonical.toList ++ cs)
          (fun tokens => ∃ rest, ExprDerives tokens e rest ∧ cond rest)
  | .junction j children => by
      intro hgap hspelt limit room cs cond hrest
      have hne : children ≠ [] := by
        rintro rfl
        cases hgap
      rw [gap?_junction j hne] at hgap
      have hchildren :=
        Expr.lexesAll children hne hgap hspelt hrest.lexes.closing
      have htext :
          (junction j children).canonical.toList ++ cs =
            (Operator.junction j).name.toList
              ++ '(' :: ((canonicalOf children).toList ++ ')' :: cs) := by
        cases j <;> simp [canonical, Junction.connective, Connective.name, Operator.name]
      rw [htext]
      refine (hchildren.node (.junction j)).mono ?_
      rintro _ ⟨head, opening, behind, closing, rest, rfl, hhead, hopening, hderives,
        hclosing, hcond⟩
      exact ⟨rest, .logical hhead hopening hderives hclosing, hcond⟩
  | .not child => by
      intro hgap hspelt limit room cs cond hrest
      have hchild :=
        Expr.lexes child hgap hspelt hrest.lexes.closing
      have htext :
          (not child).canonical.toList ++ cs =
            Operator.not.name.toList ++ '(' :: (child.canonical.toList ++ ')' :: cs) := by
        simp [canonical, Operator.name]
      rw [htext]
      refine (hchild.node .not).mono ?_
      rintro _ ⟨head, opening, behind, closing, rest, rfl, hhead, hopening, hderives,
        hclosing, hcond⟩
      exact ⟨rest, .negation hhead hopening hderives hclosing, hcond⟩
  | .presence p field => by
      intro hgap hspelt limit room cs cond hrest
      have htext :
          (presence p field).canonical.toList ++ cs =
            (Operator.presence p).name.toList ++ '|' :: (field.canonical.toList ++ cs) := by
        simp [canonical]
      rw [htext]
      refine (field.lexes_barred (.presence p) hgap hspelt hrest).mono ?_
      rintro _ ⟨head, bar, behind, rest, rfl, hhead, hbar, hderives, hcond⟩
      exact ⟨rest, .presence hhead hbar hderives, hcond⟩
  | .search mode value => by
      intro hgap hspelt limit room cs cond hrest
      have htext :
          (search mode value).canonical.toList ++ cs =
            (Operator.search mode).name.toList ++ '|' :: (value.canonical.toList ++ cs) := by
        simp [canonical]
      rw [htext]
      refine (value.lexes_barred (.search mode) hgap hspelt hrest).mono ?_
      rintro _ ⟨head, bar, behind, rest, rfl, hhead, hbar, hderives, hcond⟩
      exact ⟨rest, .search hhead hbar hderives, hcond⟩
  | .compare c field value => by
      intro hgap hspelt limit room cs cond hrest
      obtain ⟨hgapfield, hgapvalue⟩ : field.gap? = none ∧ value.gap? = none := by
        simpa [gap?] using hgap
      have hvalue :=
        value.lexes hgapvalue (fun l hl => hspelt l (List.mem_append_right _ hl)) hrest
      have hfield :=
        field.lexes_barred (.compare c) hgapfield
          (fun l hl => hspelt l (List.mem_append_left _ hl)) hvalue.bar
      have htext :
          (compare c field value).canonical.toList ++ cs =
            (Operator.compare c).name.toList
              ++ '|' :: (field.canonical.toList
                ++ '|' :: (value.canonical.toList ++ cs)) := by
        simp [canonical]
      have hroom :
          room + (compare c field value).tokenCount =
            room + value.tokenCount + 1 + (2 + field.tokenCount) := by
        rw [tokenCount]
        omega
      rw [htext, hroom]
      refine hfield.mono ?_
      rintro _ ⟨head, bar, behind, _, rfl, hhead, hbar, hderives,
        bar', behind', rfl, hbar', rest, hderives', hcond⟩
      exact ⟨rest, .compare hhead hbar hderives hbar' hderives', hcond⟩

/-- The canonical texts of expressions with separators between them are read as these. -/
theorem Expr.lexesAll :
    ∀ es : List Expr, es ≠ [] → gapIn? es = none → (∀ l ∈ literalsOf es, l.Spelt) →
      ∀ {limit room : Nat} {cs : List Char} {cond : List Token → Prop},
        Follows limit room cs cond →
        Lexes limit (room + tokenCountOf es) ((canonicalOf es).toList ++ cs)
          (fun tokens => ∃ rest, ExprsDerive tokens es rest ∧ cond rest)
  | [] => by
      intro hne
      exact absurd rfl hne
  | [e] => by
      intro _ hgap hspelt limit room cs cond hrest
      have hgap' : e.gap? = none := by
        simpa [gapIn?] using hgap
      have he := Expr.lexes e hgap' (by simpa [literalsOf] using hspelt) hrest
      refine he.mono ?_
      rintro tokens ⟨rest, hderives, hcond⟩
      exact ⟨rest, .one hderives, hcond⟩
  | e :: f :: fs => by
      intro _ hgap hspelt limit room cs cond hrest
      obtain ⟨hgape, hgapfs⟩ : e.gap? = none ∧ gapIn? (f :: fs) = none := by
        simpa [gapIn?] using hgap
      have hmore :=
        Expr.lexesAll (f :: fs) (by simp) hgapfs
          (fun l hl => hspelt l (List.mem_append_right _ hl)) hrest
      have he :=
        Expr.lexes e hgape (fun l hl => hspelt l (List.mem_append_left _ hl))
          hmore.separator
      have htext :
          (canonicalOf (e :: f :: fs)).toList ++ cs =
            e.canonical.toList ++ '‖' :: ((canonicalOf (f :: fs)).toList ++ cs) := by
        simp [canonicalOf]
      have hroom :
          room + tokenCountOf (e :: f :: fs) =
            room + tokenCountOf (f :: fs) + 1 + e.tokenCount := by
        rw [tokenCountOf_cons e (by simp)]
        omega
      rw [htext, hroom]
      refine he.mono ?_
      rintro tokens ⟨_, hderives, separator, behind, rfl, hseparator, rest, hderives', hcond⟩
      exact ⟨rest, .more hderives hseparator hderives', hcond⟩

end

/-- A spelt expression without gaps is derived by the tokens of its canonical text. -/
theorem Expr.lex_canonical
    {limits : Limits} {e : Expr}
    (hgap : e.gap? = none) (hspelt : ∀ l ∈ e.literals, l.Spelt)
    (hroom : e.tokenCount ≤ limits.maxTokens) :
    ∃ tokens, lex limits e.canonical = .ok tokens ∧ Derives tokens e := by
  have hend := Follows.nil limits.maxTokens (limits.maxTokens - e.tokenCount)
  obtain ⟨tokens, hread, _, hderives, rfl⟩ := e.lexes hgap hspelt hend 0
  refine ⟨tokens, ?_, hderives⟩
  rw [Nat.sub_add_cancel hroom, List.append_nil] at hread
  exact hread

/-- A query's tokens stand for literals that can be spelt, and are no more than allowed. -/
theorem lex_spelt
    {limits : Limits} {query : String} {tokens : List Token}
    (hlex : lex limits query = .ok tokens) :
    tokens.length ≤ limits.maxTokens ∧
      ∀ t ∈ tokens, ∀ l : Literal, l.ReadFrom t → l.Spelt :=
  tokensFrom_spelt hlex

end Expressions

section Readable

/--
An expression that a query can be read as: nothing in it is left empty, it is
nested no more deeply and has no more tokens than allowed, and its literals can be
spelt.
-/
structure Expr.Readable (limits : Limits) (e : Expr) : Prop where
  saturated : e.Saturated
  depth_le : e.depth ≤ limits.maxDepth
  tokenCount_le : e.tokenCount ≤ limits.maxTokens
  spelt : ∀ l ∈ e.literals, l.Spelt

/-- Whatever a query is read as is readable. -/
theorem Expr.readable_of_parse
    {limits : Limits} {query : String} {e : Expr}
    (hparse : parse limits query = .ok e) :
    e.Readable limits := by
  obtain ⟨tokens, hlex, hderives, hdepth⟩ := parse_eq_ok_iff.1 hparse
  obtain ⟨hlength, hspelt⟩ := lex_spelt hlex
  have hcount := ExprDerives.length_eq hderives
  simp only [List.length_nil, Nat.add_zero] at hcount
  constructor
  · exact ExprDerives.gap?_eq_none hderives
  · exact hdepth
  · omega
  · intro l hl
    obtain ⟨t, ht, hread⟩ := ExprDerives.literals_of_tokens hderives l hl
    exact hspelt t ht l hread

/-- A readable expression is read back from its canonical text. -/
theorem Expr.Readable.parse_canonical
    {limits : Limits} {e : Expr} (he : e.Readable limits) :
    parse limits e.canonical = .ok e := by
  obtain ⟨tokens, hlex, hderives⟩ :=
    Expr.lex_canonical he.saturated he.spelt he.tokenCount_le
  exact parse_eq_ok_iff.2 ⟨tokens, hlex, hderives, he.depth_le⟩

/--
**Canonical text and reading are inverse to each other.**  The expressions that
some query is read as are those that their canonical text is read as, and these
are the readable ones.
-/
theorem canonical_inverse_of_parse
    (limits : Limits) (e : Expr) :
    ((∃ query, parse limits query = .ok e) ↔ parse limits e.canonical = .ok e)
      ∧
    (parse limits e.canonical = .ok e ↔ e.Readable limits) := by
  constructor
  · constructor
    · rintro ⟨query, hparse⟩
      exact (Expr.readable_of_parse hparse).parse_canonical
    · intro hparse
      exact ⟨e.canonical, hparse⟩
  · constructor
    · exact Expr.readable_of_parse
    · exact Expr.Readable.parse_canonical

/-- A keyword, a backslash before a quote and a separator are all read back. -/
example :
    parse {} (Expr.compare .equals (.group .not [.literal (.bare "OR")])
      (.literal (.ofQuoted "a\\\"‖"))).canonical =
    .ok (.compare .equals (.group .not [.literal (.bare "OR")])
      (.literal (.ofQuoted "a\\\"‖"))) := by
  cbv

end Readable

end FieldQuery
