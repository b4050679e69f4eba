import Mathlib
import FieldQuery.Proofs.ErrorPlaces

/-!
# Wrong numbers of operands

An operator may be followed by any number of complete operands, or of complete children
in parentheses.  If the number is not one that it takes, the query fails with that number
and shows the whole of the node, wherever it stands: no reader around it, and nothing that
follows it, has anything to say before.

The reader of a node ends at the last token of the node, so the fault covers it.  The
children before the node are read without a fault, and a child that fails makes every
node around it fail in the same way.

**Results.**

* `readOperand_endsAt`, `readBarred_endsAt`: the last token that was read;
* `Counted.readExpr_eq_error`: a node with a wrong number of operands;
* `Reaches.readExpr_eq_error`: a child that fails, inside any number of nodes;
* `wrong_counts_reported`: whole queries.
-/

namespace FieldQuery

section LastTokens

variable {n m : Nat} {α β : Type} {tokens : List Token}

/-- The last token that was read stands directly before what is left, and its place is kept. -/
def Parsed.EndsAt (tokens : List Token) (p : Parsed n α) : Prop :=
  ∃ t, (t :: p.rest) <:+ tokens ∧ p.last = t.span

theorem Parsed.EndsAt.of_suffix
    {behind : List Token} {p : Parsed n α} (hp : p.EndsAt behind) (hsuffix : behind <:+ tokens) :
    p.EndsAt tokens := by
  obtain ⟨t, ht, hlast⟩ := hp
  exact ⟨t, ht.trans hsuffix, hlast⟩

theorem Parsed.EndsAt.widen
    {p : Parsed n α} (hp : p.EndsAt tokens) (value : β) (h : n ≤ m) :
    (p.widen value h).EndsAt tokens :=
  hp

theorem readClosing_endsAt
    {keyword : Connective} {head : Span} {depth : Nat} {c : Parsed tokens.length Unit}
    (hread : readClosing keyword head depth tokens = .ok c) :
    c.EndsAt tokens := by
  cases tokens with
  | nil =>
      cases hread
  | cons t ts =>
      simp only [readClosing] at hread
      split at hread
      · cases hread
        exact ⟨t, List.suffix_refl _, rfl⟩
      · cases hread

/-- The reader of an operand ends at its last token. -/
theorem readOperand_endsAt
    {limit depth : Nat} {last : Span} {p : Parsed tokens.length Operand}
    (hread : readOperand limit depth last tokens = .ok p) :
    p.EndsAt tokens := by
  cases tokens with
  | nil =>
      rw [readOperand] at hread
      cases hread
  | cons t ts =>
      cases readOperand_ok hread with
      | literal hl =>
          exact ⟨t, List.suffix_refl _, rfl⟩
      | group hhead hconnective hgroup =>
          -- the group ends at its closing parenthesis, which is behind its members
          obtain ⟨o, xs, c, _, hopen, hxs, hc, rfl⟩ := readGroup_ok hgroup
          obtain ⟨opening, hts, _⟩ := readOpening_ok hopen
          have hmembers := (readOperands_sound limit o.depth o.last hxs).derived.suffix
          have hinner : o.rest <:+ t :: ts :=
            ⟨[t, opening], congrArg (t :: ·) hts.symm⟩
          exact (readClosing_endsAt hc).of_suffix (hmembers.trans hinner)

/-- The reader of operands behind bars ends at the last of their tokens, if there are any. -/
theorem readBarred_endsAt
    (limit depth : Nat) (last : Span) :
    ∀ {tokens : List Token} {p : Parsed (tokens.length + 1) (List Operand)},
      readBarred limit depth last tokens = .ok p →
        (p.rest = tokens ∧ p.last = last) ∨ p.EndsAt tokens
  | [], p, hread => by
      rw [readBarred] at hread
      cases hread
      exact .inl ⟨rfl, rfl⟩
  | t :: ts, p, hread => by
      rw [readBarred] at hread
      split at hread
      · split at hread
        · cases hread
        rename_i x hx
        have hfewer := x.fewer
        dsimp only at hread
        split at hread
        · cases hread
        rename_i xs hxs
        cases hread
        right
        have hts := List.suffix_cons t ts
        rcases readBarred_endsAt limit x.depth x.last hxs with ⟨hrest, hlast⟩ | hends
        · obtain ⟨u, hu, hplace⟩ := readOperand_endsAt hx
          refine ⟨u, ?_, ?_⟩
          · simp only [Parsed.widen]
            rw [hrest]
            exact hu.trans hts
          · simp only [Parsed.widen]
            rw [hlast, hplace]
        · have hx' := (readOperand_sound limit depth t.span hx).derived.suffix
          exact (hends.of_suffix (hx'.trans hts)).widen _ _
      · cases hread
        exact .inl ⟨rfl, rfl⟩
termination_by tokens => tokens.length

end LastTokens

section Nodes

/--
The tokens `node`, in front of `rest`, are an operator with `count` complete operands
behind bars, or with `count` complete children in parentheses.  It needs room for `deep`
open parentheses.
-/
inductive Counted : List Token → List Token → Operator → Nat → Nat → Prop
  | barred
      {head : Token} {behind rest : List Token} {op : Operator} {xs : List Operand}
      (hhead : head.kind = .operator op)
      (hplain : op.connective? = none)
      (hxs : BarredDerive (behind ++ rest) xs rest)
      (hstop : ¬ StartsWith .openParen rest) :
      Counted (head :: behind) rest op xs.length (Operand.depthOf xs)
  | empty
      {head opening closing : Token} {rest : List Token} {connective : Connective}
      (hhead : head.kind = .operator connective.operator)
      (hopening : opening.kind = .openParen)
      (hclosing : closing.kind = .closeParen) :
      Counted [head, opening, closing] rest connective.operator 0 1
  | node
      {head opening closing : Token} {inner rest : List Token}
      {connective : Connective} {es : List Expr}
      (hhead : head.kind = .operator connective.operator)
      (hopening : opening.kind = .openParen)
      (hes : ExprsDerive (inner ++ closing :: rest) es (closing :: rest))
      (hclosing : closing.kind = .closeParen) :
      Counted ((head :: opening :: inner) ++ [closing]) rest connective.operator
        es.length (1 + Expr.depthOf es)

variable {node rest : List Token} {op : Operator} {count deep : Nat}

/-- An operator makes no expression of a number of operands that it does not take. -/
theorem Operator.apply?_eq_none
    {xs : List Operand} (hplain : op.connective? = none)
    (hwrong : op.arity.accepts xs.length = false) :
    op.apply? xs = none := by
  unfold Operator.apply?
  split
  · simp [arity, Arity.accepts] at hwrong
  · simp [arity, Arity.accepts] at hwrong
  · simp [arity, Arity.accepts] at hwrong
  · rfl

/-- A connective makes no node of a number of children that it does not take. -/
theorem Connective.apply?_eq_none
    {connective : Connective} {es : List Expr} (hne : es ≠ [])
    (hwrong : connective.operator.arity.accepts es.length = false) :
    connective.apply? es = none := by
  have hpos := List.length_pos_iff.2 hne
  cases connective with
  | and =>
      simp [operator, Operator.arity, Arity.accepts, hne] at hwrong
  | or =>
      simp [operator, Operator.arity, Arity.accepts, hne] at hwrong
  | not =>
      cases es with
      | nil =>
          exact absurd rfl hne
      | cons e es =>
          cases es with
          | nil =>
              simp [operator, Operator.arity, Arity.accepts] at hwrong
          | cons f fs =>
              rfl

theorem Counted.exists_head
    (hcounted : Counted node rest op count deep) :
    ∃ head behind, node = head :: behind ∧ head.kind = .operator op := by
  cases hcounted with
  | barred hhead _ _ _ =>
      exact ⟨_, _, rfl, hhead⟩
  | empty hhead _ _ =>
      exact ⟨_, _, rfl, hhead⟩
  | node hhead _ _ _ =>
      exact ⟨_, _, rfl, hhead⟩

/-- A token that stands behind others and in front of `rest` is the last of those. -/
theorem getLast?_of_suffix
    {used : List Token} {t : Token} (hsuffix : (t :: rest) <:+ used ++ rest) :
    used.getLast? = some t := by
  obtain ⟨front, hfront⟩ := hsuffix
  have hused : used = front ++ [t] := by
    have hwhole : used ++ rest = (front ++ [t]) ++ rest := by
      rw [← hfront, List.append_assoc, List.singleton_append]
    exact List.append_cancel_right hwhole
  rw [hused, List.getLast?_concat]

/-- The reader of the operands of a node ends at the last token of the node. -/
theorem last_eq_of_readBarred
    {limit depth : Nat} {head final : Token} {behind : List Token}
    {p : Parsed ((behind ++ rest).length + 1) (List Operand)}
    (hread : readBarred limit depth head.span (behind ++ rest) = .ok p) (hrest : p.rest = rest)
    (hfinal : (head :: behind).getLast? = some final) :
    p.last = final.span := by
  rcases readBarred_endsAt limit depth head.span hread with ⟨hnone, hlast⟩ | ⟨t, ht, hplace⟩
  · -- without operands the keyword is all there is
    have hnil : behind = [] := by
      simpa using hrest.symm.trans hnone
    subst hnil
    obtain rfl : head = final := by
      simpa using hfinal
    exact hlast
  · rw [hrest] at ht
    have hlast := getLast?_of_suffix ht
    have hbehind : behind ≠ [] := by
      rintro rfl
      cases hlast
    rw [List.getLast?_cons_of_ne_nil hbehind, hlast] at hfinal
    obtain rfl := Option.some.inj hfinal
    exact hplace

/-- **A node with a wrong number of operands** fails with this number, from its keyword on
to its last token. -/
theorem Counted.readExpr_eq_error
    (hcounted : Counted node rest op count deep)
    (hwrong : op.arity.accepts count = false)
    {head final : Token} (hhead : node.head? = some head) (hfinal : node.getLast? = some final)
    {limit depth : Nat} (hroom : depth + deep ≤ limit)
    (holder : Option Connective) (last : Span) :
    readExpr limit holder depth last (node ++ rest) =
      .error (arityFault op count head.span final.span) := by
  cases hcounted with
  | @barred head' behind _ _ xs hkind hplain hxs hstop =>
      obtain rfl : head' = head := Option.some.inj hhead
      obtain ⟨last', fewer, hread⟩ := hxs.reads limit depth head'.span hroom
      have hlast : last' = final.span := last_eq_of_readBarred hread rfl hfinal
      subst hlast
      rw [List.cons_append, readExpr]
      simp only [hkind, hplain, readOperation, hread, next?_eq_none_iff.2 hstop,
        op.apply?_eq_none hplain hwrong]
  | @empty head' opening closing _ connective hkind hopening hclosing =>
      obtain rfl : head' = head := Option.some.inj hhead
      obtain rfl : closing = final := Option.some.inj hfinal
      obtain ⟨olast, _, hopen⟩ :=
        reads_opening limit depth connective head'.span hopening (by omega) (closing :: rest)
      simp only [List.cons_append, List.nil_append]
      rw [readExpr]
      simp only [hkind, connective.connective?_operator]
      rw [hopen]
      simp only [next?_cons hclosing]
  | @node head' opening closing inner _ connective es hkind hopening hes hclosing =>
      obtain rfl : head' = head := Option.some.inj hhead
      rw [List.getLast?_concat] at hfinal
      obtain rfl := Option.some.inj hfinal
      obtain ⟨olast, _, hopen⟩ :=
        reads_opening limit depth connective head'.span hopening (by omega)
          (inner ++ closing :: rest)
      obtain ⟨elast, _, hread⟩ :=
        hes.reads (by simp [hclosing]) (by simp [hclosing]) (by simp [hclosing])
          limit connective (depth + 1) olast (by omega)
      have hnext := next?_eq_none_iff.2 hes.not_closing
      have htokens :
          (head' :: opening :: inner) ++ [closing] ++ rest =
            head' :: opening :: (inner ++ closing :: rest) := by
        simp
      rw [htokens, readExpr]
      simp only [hkind, connective.connective?_operator]
      rw [hopen]
      simp only [hnext]
      rw [hread]
      simp only [Connective.apply?_eq_none hes.ne_nil hwrong, next?_cons hclosing,
        Option.map_some, Option.getD_some]

end Nodes

section Surroundings

/-- The tokens begin with complete expressions, each with a group separator behind it. -/
inductive EarlierChildren : List Token → List Expr → List Token → Prop
  | none
      {tokens : List Token} :
      EarlierChildren tokens [] tokens
  | more
      {tokens behind rest : List Token} {separator : Token} {e : Expr} {es : List Expr}
      (he : ExprDerives tokens e (separator :: behind))
      (hseparator : separator.kind = .groupSep)
      (hes : EarlierChildren behind es rest) :
      EarlierChildren tokens (e :: es) rest

/--
Reading comes from the first tokens, with `depth` parentheses open, to `target`, with
`depth'` open: through the heads of nodes that are not closed in between, past complete
children of each of them, and never with more parentheses open than `limit`.
-/
inductive Reaches (limit : Nat) : Nat → List Token → Nat → List Token → Prop
  | here
      {depth : Nat} {target : List Token} :
      Reaches limit depth target depth target
  | inside
      {depth depth' : Nat} {connective : Connective} {head opening : Token}
      {inner behind target : List Token} {earlier : List Expr}
      (hhead : head.kind = .operator connective.operator)
      (hopening : opening.kind = .openParen)
      (hearlier : EarlierChildren inner earlier behind)
      (hroom : depth + 1 + Expr.depthOf earlier ≤ limit)
      (hreaches : Reaches limit (depth + 1) behind depth' target) :
      Reaches limit depth (head :: opening :: inner) depth' target

variable {limit depth depth' : Nat} {tokens behind target : List Token} {err : Located}

theorem EarlierChildren.suffix
    {earlier : List Expr} (hearlier : EarlierChildren tokens earlier behind) :
    behind <:+ tokens := by
  induction hearlier with
  | none =>
      exact List.suffix_refl _
  | more he _ _ ih =>
      exact (ih.trans (List.suffix_cons _ _)).trans he.suffix

theorem Reaches.suffix
    (hreaches : Reaches limit depth tokens depth' target) :
    target <:+ tokens := by
  induction hreaches with
  | here =>
      exact List.suffix_refl _
  | inside _ _ hearlier _ _ ih =>
      exact (ih.trans hearlier.suffix).trans (suffix_cons_cons _ _ _)

/-- A child that fails makes the reading of the children fail, if those before it are read. -/
theorem EarlierChildren.readExprs_eq_error
    {earlier : List Expr} (hearlier : EarlierChildren tokens earlier behind)
    (hroom : depth + Expr.depthOf earlier ≤ limit) {holder : Connective}
    (hread : ∀ last, readExpr limit (some holder) depth last behind = .error err)
    (last : Span) :
    readExprs limit holder depth last tokens = .error err := by
  induction hearlier generalizing last with
  | none =>
      rw [readExprs]
      rw [hread last]
  | more he hseparator _ ih =>
      simp only [Expr.depthOf] at hroom
      obtain ⟨_, _, hfirst⟩ :=
        he.reads (by simp [hseparator]) (by simp [hseparator])
          limit (some holder) depth last (by omega)
      rw [readExprs]
      rw [hfirst]
      simp only [hseparator, if_true]
      rw [ih (by omega) hread]

theorem EarlierChildren.not_closing
    {earlier : List Expr} (hearlier : EarlierChildren tokens earlier behind)
    (hbehind : ¬ StartsWith .closeParen behind) :
    ¬ StartsWith .closeParen tokens := by
  cases hearlier with
  | none =>
      exact hbehind
  | more he _ _ =>
      exact he.not_closing

theorem Reaches.not_closing
    (hreaches : Reaches limit depth tokens depth' target)
    (htarget : ¬ StartsWith .closeParen target) :
    ¬ StartsWith .closeParen tokens := by
  cases hreaches with
  | here =>
      exact htarget
  | inside hhead _ _ _ _ =>
      simp [hhead]

/-- **A child that fails makes every node around it fail in the same way.** -/
theorem Reaches.readExpr_eq_error
    (hreaches : Reaches limit depth tokens depth' target)
    (htarget : ¬ StartsWith .closeParen target)
    (hread : ∀ holder last, readExpr limit holder depth' last target = .error err)
    (holder : Option Connective) (last : Span) :
    readExpr limit holder depth last tokens = .error err := by
  induction hreaches generalizing holder last with
  | here =>
      exact hread holder last
  | @inside depth depth' connective head opening inner behind target earlier
      hhead hopening hearlier hroom hreaches ih =>
      obtain ⟨olast, _, hopen⟩ :=
        reads_opening limit depth connective head.span hopening (by omega) inner
      have hinner := hearlier.not_closing (hreaches.not_closing htarget)
      have hes :=
        hearlier.readExprs_eq_error hroom
          (ih htarget hread (some connective)) olast
      rw [readExpr]
      simp only [hhead, connective.connective?_operator]
      rw [hopen]
      simp only [next?_eq_none_iff.2 hinner]
      rw [hes]

end Surroundings

section Queries

variable {limits : Limits} {query : String} {tokens node : List Token} {head final : Token}

/-- The fault of a list of tokens is that of the expression that they begin with. -/
theorem readTokens_eq_error
    {limit : Nat} {err : Located} (hne : tokens ≠ [])
    (hread : readExpr limit none 0 ⟨0, 0⟩ tokens = .error err) :
    readTokens limit tokens = .error err := by
  cases tokens with
  | nil =>
      exact absurd rfl hne
  | cons t ts =>
      simp only [readTokens, hread]

/-- The last token of a node ends no earlier than the first. -/
theorem Laid.stop_le
    {cs : List Char} (hlaid : Laid cs node)
    (hhead : node.head? = some head) (hfinal : node.getLast? = some final) :
    head.stop ≤ final.stop := by
  obtain ⟨behind, rfl⟩ := List.head?_eq_some_iff.1 hhead
  rcases List.mem_cons.1 (List.mem_of_getLast? hfinal) with rfl | hmem
  · exact Nat.le_refl _
  · have hbehind : head.stop ≤ final.start := List.rel_of_pairwise_cons hlaid.ordered hmem
    have hplace : final.start < final.stop := (hlaid.tail.within final hmem).nonempty
    omega

/-- A fault about a node shows the text from its first token to its last. -/
theorem arityFault_toError
    (hlaid : Laid query.toList node)
    (hhead : node.head? = some head) (hfinal : node.getLast? = some final)
    (op : Operator) (count : Nat) :
    ∃ before fragment after : String,
      query = before ++ fragment ++ after ∧
      before.utf8ByteSize = head.start ∧
      before.utf8ByteSize + fragment.utf8ByteSize = final.stop ∧
      (arityFault op count head.span final.span).toError query =
        ⟨.arity, (Fault.wrongArity op count).message, fragment, head.start, query⟩ := by
  have hhead' := hlaid.within head (List.mem_of_mem_head? hhead)
  have hfinal' := hlaid.within final (List.mem_of_getLast? hfinal)
  have hstop : max final.stop head.stop = final.stop :=
    max_eq_left (hlaid.stop_le hhead hfinal)
  have hplace : Span.LiesIn ⟨head.start, final.stop⟩ query.toList := by
    have hcover := hhead'.cover hfinal'
    change Span.LiesIn ⟨head.start, max final.stop head.stop⟩ query.toList at hcover
    rwa [hstop] at hcover
  obtain ⟨before, after, hquery, hbefore, hbytes⟩ :=
    Text.exists_slice hplace.start hplace.stop hplace.nonempty.le
  dsimp only at hquery hbefore hbytes
  refine
    ⟨String.ofList before,
      String.ofList (Text.slice query.toList head.start final.stop),
      String.ofList after, ?_, ?_, ?_, ?_⟩
  · have hseams := congrArg String.ofList hquery
    rwa [String.ofList_toList, String.ofList_append, String.ofList_append,
      ← String.append_assoc] at hseams
  · rw [Text.utf8ByteSize_ofList, hbefore]
  · rw [Text.utf8ByteSize_ofList, Text.utf8ByteSize_ofList, hbefore, hbytes]
  · simp only [arityFault, faultWithin, Located.toError, Located.fragment, Located.position,
      Token.span, hstop]
    rfl

/--
**A wrong number of operands is reported as such.**  Let the tokens of a query lead to an
operator with complete operands or children, and let their number not be one that it
takes.  Then the query fails with the number that was found, at the keyword, and what it
shows is the text from the keyword on to the end of the node's last token.  The tokens
behind the node are arbitrary, but for a bar or an opening parenthesis directly behind
operands.
-/
theorem wrong_counts_reported
    (htokens : tokenize limits query = .ok tokens)
    {rest : List Token} {depth : Nat}
    (hreaches : Reaches limits.maxDepth 0 tokens depth (node ++ rest))
    {op : Operator} {count deep : Nat}
    (hcounted : Counted node rest op count deep)
    (hroom : depth + deep ≤ limits.maxDepth)
    (hwrong : op.arity.accepts count = false)
    (hhead : node.head? = some head) (hfinal : node.getLast? = some final) :
    ∃ before fragment after : String,
      query = before ++ fragment ++ after ∧
      before.utf8ByteSize = head.start ∧
      before.utf8ByteSize + fragment.utf8ByteSize = final.stop ∧
      parse limits query =
        .error ⟨.arity,
          "'" ++ op.name ++ "' takes " ++ op.arity.describe ++ " " ++ op.operandWords
            ++ ", found " ++ count.repr,
          fragment, head.start, query⟩ := by
  rw [tokenize_eq_ok_iff] at htokens
  have hlaid := (lex_eq_ok_iff.1 htokens).2.laid
  rw [List.append_nil] at hlaid
  obtain ⟨t, behind, hnode, hkind⟩ := hcounted.exists_head
  have htarget : ¬ StartsWith .closeParen (node ++ rest) := by
    simp [hnode, hkind]
  have hsuffix := hreaches.suffix
  have hne : tokens ≠ [] := by
    rintro rfl
    simp [hnode] at hsuffix
  have hread :
      readTokens limits.maxDepth tokens =
        .error (arityFault op count head.span final.span) :=
    readTokens_eq_error hne
      (hreaches.readExpr_eq_error htarget
        (hcounted.readExpr_eq_error hwrong hhead hfinal hroom) none ⟨0, 0⟩)
  have hlaid' : Laid query.toList node :=
    ⟨fun u hu => hlaid.within u (hsuffix.subset (List.mem_append_left rest hu)),
      (List.pairwise_append.1 (hlaid.of_suffix hsuffix).ordered).1⟩
  obtain ⟨before, fragment, after, hquery, hbefore, hbytes, herror⟩ :=
    arityFault_toError hlaid' hhead hfinal op count
  refine ⟨before, fragment, after, hquery, hbefore, hbytes, ?_⟩
  rw [parse, read, htokens]
  dsimp only
  rw [hread]
  exact congrArg Except.error herror

/--
Three operands, a group and a keyword among them, behind a complete child and in two
nodes that nothing closes.
-/
theorem wrong_counts_reported_nested :
    ∃ tokens node rest,
      tokenize { maxDepth := 3 } "or(exists|ü,not(gt|and(a)|gte|c‖(" = .ok tokens ∧
      Reaches 3 0 tokens 2 (node ++ rest) ∧
      Counted node rest (.compare (.bound .lower false)) 3 1 ∧
      (Operator.compare (.bound .lower false)).arity.accepts 3 = false ∧
      node.head?.map Token.start = some 17 ∧
      node.getLast?.map Token.stop = some 32 ∧
      ∃ before fragment after : String,
        "or(exists|ü,not(gt|and(a)|gte|c‖(" = before ++ fragment ++ after ∧
        before.utf8ByteSize = 17 ∧
        before.utf8ByteSize + fragment.utf8ByteSize = 32 ∧
        parse { maxDepth := 3 } "or(exists|ü,not(gt|and(a)|gte|c‖(" =
          .error ⟨.arity, "'gt' takes exactly 2 operands (field|value), found 3",
            fragment, 17, "or(exists|ü,not(gt|and(a)|gte|c‖("⟩ := by
  let before : List Token :=
    [⟨.operator (.junction .or), "or", 0⟩, ⟨.openParen, "(", 2⟩,
      ⟨.operator (.presence .present), "exists", 3⟩, ⟨.fieldSep, "|", 9⟩,
      ⟨.literal (.bare "ü"), "ü", 10⟩, ⟨.groupSep, ",", 12⟩,
      ⟨.operator .not, "not", 13⟩, ⟨.openParen, "(", 16⟩]
  let node : List Token :=
    [⟨.operator (.compare (.bound .lower false)), "gt", 17⟩, ⟨.fieldSep, "|", 19⟩,
      ⟨.operator (.junction .and), "and", 20⟩, ⟨.openParen, "(", 23⟩,
      ⟨.literal (.bare "a"), "a", 24⟩, ⟨.closeParen, ")", 25⟩, ⟨.fieldSep, "|", 26⟩,
      ⟨.operator (.compare (.bound .lower true)), "gte", 27⟩, ⟨.fieldSep, "|", 30⟩,
      ⟨.literal (.bare "c"), "c", 31⟩]
  let rest : List Token :=
    [⟨.groupSep, "‖", 32⟩, ⟨.openParen, "(", 35⟩]
  have htokens :
      tokenize { maxDepth := 3 } "or(exists|ü,not(gt|and(a)|gte|c‖(" =
        .ok (before ++ (node ++ rest)) := by
    cbv
  have hreaches : Reaches 3 0 (before ++ (node ++ rest)) 2 (node ++ rest) := by
    refine @Reaches.inside _ _ _ .or _ _ _ _ _ _ rfl rfl
      (.more (.presence rfl rfl (.literal rfl)) rfl .none) (by decide) ?_
    exact @Reaches.inside _ _ _ .not _ _ _ _ _ _ rfl rfl .none (by decide) .here
  have hxs : BarredDerive (node.tail ++ rest)
      [.group .and [.literal (.bare "a")], .literal (.bare "gte"), .literal (.bare "c")] rest := by
    refine .more rfl (.group rfl rfl rfl (.one (.literal rfl)) rfl) ?_
    refine .more rfl (.keyword rfl (Or.inl rfl)) ?_
    exact .more rfl (.literal rfl) (.none (by simp [rest]))
  have hcounted : Counted node rest (.compare (.bound .lower false)) 3 1 :=
    .barred rfl rfl hxs (by simp [rest])
  exact
    ⟨_, node, rest, htokens, hreaches, hcounted, rfl, rfl, rfl,
      wrong_counts_reported htokens hreaches hcounted (by decide) rfl rfl rfl⟩

/-- The surplus children of a negation are read before it fails, up to its parenthesis. -/
example :
    read {} "not(exists|a,exists|b)" = .error ⟨.wrongArity .not 2, .within ⟨0, 22⟩⟩ := by
  cbv

end Queries

end FieldQuery
