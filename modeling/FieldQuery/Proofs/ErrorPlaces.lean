import FieldQuery.Proofs.TokenSequence

/-!
# Where syntax errors point

A syntax error shows a fragment of the query and where it begins.  A cut inside a
character or beyond the end gives no text at all, so a wrong place would go unnoticed.
The places that a reader is handed are those of tokens, which begin and end between
characters of the query, and every fault it reports begins at such a boundary and ends
at a later one.

**Results.**

* `Text.exists_slice`: what is cut out between two boundaries;
* `Span.LiesIn.cover`, `Span.LiesIn.onward`: stretches made of the places of tokens;
* `IsLexing.laid`: the tokens of a text;
* `readOperand_within`, `readBarred_within`, `readExpr_within`: the readers;
* `lex_error_within`, `Located.toError_pointsInto`: the lexer, and what is shown;
* `syntax_errors_point_into_query`: whole queries.
-/

namespace FieldQuery

section Boundaries

variable {cs : List Char} {start stop n : Nat}

/-- A byte offset of a text that is not inside a character or beyond the end. -/
def Text.IsBoundary (cs : List Char) (n : Nat) : Prop :=
  ∃ front rest, cs = front ++ rest ∧ byteLength front = n

theorem Text.isBoundary_byteLength
    (front rest : List Char) :
    IsBoundary (front ++ rest) (byteLength front) :=
  ⟨front, rest, rfl, rfl⟩

theorem Text.IsBoundary.le_byteLength
    (hboundary : IsBoundary cs n) :
    n ≤ byteLength cs := by
  obtain ⟨front, rest, rfl, rfl⟩ := hboundary
  rw [byteLength_append]
  omega

/-- What is cut out between two boundaries stands between them. -/
theorem Text.exists_slice
    (hstart : IsBoundary cs start) (hstop : IsBoundary cs stop) (hle : start ≤ stop) :
    ∃ before after, cs = before ++ (slice cs start stop ++ after) ∧
      byteLength before = start ∧ start + byteLength (slice cs start stop) = stop := by
  obtain ⟨before, rest, hcs, rfl⟩ := hstart
  obtain ⟨front, after, hcs', rfl⟩ := hstop
  obtain ⟨middle, rfl, rfl⟩ := exists_append_of_byteLength_le (hcs.symm.trans hcs') hle
  have hslice : slice cs (byteLength before) (byteLength (before ++ middle)) = middle := by
    rw [hcs, byteLength_append]
    exact slice_append before middle after
  refine ⟨before, after, ?_, rfl, ?_⟩
  · rw [hslice, hcs]
  · rw [hslice, byteLength_append]

end Boundaries

section Stretches

variable {cs : List Char} {s s' : Span}

/-- A stretch of a text from one boundary to a later one. -/
structure Span.LiesIn (s : Span) (cs : List Char) : Prop where
  start : Text.IsBoundary cs s.start
  stop : Text.IsBoundary cs s.stop
  nonempty : s.start < s.stop

/-- The stretch that an extent stands for in a text. -/
def Extent.span (cs : List Char) : Extent → Span
  | .within s => s
  | .onward start => ⟨start, Text.byteLength cs⟩

/-- The stretch from the beginning of one stretch to the end of both. -/
theorem Span.LiesIn.cover
    (hs : s.LiesIn cs) (hs' : s'.LiesIn cs) :
    Span.LiesIn ⟨s.start, max s'.stop s.stop⟩ cs where
  start := hs.start
  stop := by
    rcases max_choice s'.stop s.stop with hmax | hmax
    · rw [hmax]
      exact hs'.stop
    · rw [hmax]
      exact hs.stop
  nonempty := lt_of_lt_of_le hs.nonempty (le_max_right _ _)

/-- Where a stretch begins, there is something left of the text. -/
theorem Span.LiesIn.onward
    (hs : s.LiesIn cs) :
    Span.LiesIn (Extent.span cs (.onward s.start)) cs where
  start := hs.start
  stop := ⟨cs, [], by simp, rfl⟩
  nonempty := lt_of_lt_of_le hs.nonempty hs.stop.le_byteLength

end Stretches

section Layout

variable {cs : List Char} {t u : Token} {ts tokens : List Token}

/-- Tokens that are pieces of a text, each of which ends before the next ones begin. -/
structure Laid (cs : List Char) (tokens : List Token) : Prop where
  within : ∀ t ∈ tokens, t.span.LiesIn cs
  ordered : tokens.Pairwise fun t u => t.stop ≤ u.start

theorem Laid.head
    (hlaid : Laid cs (t :: ts)) :
    t.span.LiesIn cs :=
  hlaid.within t (by simp)

theorem Laid.of_suffix
    (hlaid : Laid cs tokens) (hsuffix : ts <:+ tokens) :
    Laid cs ts where
  within := fun t ht => hlaid.within t (hsuffix.subset ht)
  ordered := hlaid.ordered.sublist hsuffix.sublist

theorem Laid.tail
    (hlaid : Laid cs (t :: ts)) :
    Laid cs ts :=
  hlaid.of_suffix (List.suffix_cons t ts)

/-- The stretch from a token to the end of one behind it. -/
theorem Laid.through
    (hlaid : Laid cs (t :: ts)) (hu : u ∈ ts) :
    Span.LiesIn ⟨t.start, u.stop⟩ cs where
  start := hlaid.head.start
  stop := (hlaid.tail.within u hu).stop
  nonempty := by
    change t.start < u.stop
    have ht : t.start < t.stop := hlaid.head.nonempty
    have hbehind : t.stop ≤ u.start := List.rel_of_pairwise_cons hlaid.ordered hu
    have hlast : u.start < u.stop := (hlaid.tail.within u hu).nonempty
    omega

/-- The tokens of the front of a text. -/
theorem IsLexing.laid
    {front behind : List Char} (hlexing : IsLexing 0 front behind tokens) :
    Laid (front ++ behind) tokens where
  within := by
    intro t ht
    obtain ⟨before, after, rfl, hstart⟩ := hlexing.placed t ht
    rw [Nat.zero_add] at hstart
    refine ⟨⟨before, _, List.append_assoc _ _ _, hstart.symm⟩, ?_, hlexing.nonempty t ht⟩
    refine ⟨before ++ t.text.toList, after ++ behind, by simp, ?_⟩
    rw [Text.byteLength_append, ← hstart]
    exact t.stop_eq.symm
  ordered := hlexing.ordered

end Layout

section Results

variable {cs : List Char} {n m : Nat} {α β : Type} {ts tokens : List Token}

/-- What a reader returned leaves the last of its tokens and a place in the text. -/
structure Parsed.Within (cs : List Char) (tokens : List Token) (p : Parsed n α) : Prop where
  rest : p.rest <:+ tokens
  last : p.last.LiesIn cs

theorem Parsed.Within.widen
    {p : Parsed n α} (hp : p.Within cs ts) (value : β) (h : n ≤ m) (hsuffix : ts <:+ tokens) :
    (p.widen value h).Within cs tokens :=
  ⟨hp.rest.trans hsuffix, hp.last⟩

/-- A reading of tokens of a text ended with a fault about a part of the text, or kept to it. -/
def ReadsWithin (cs : List Char) (tokens : List Token)
    (r : Except Located (Parsed n α)) : Prop :=
  (∃ err, r = .error err ∧ (err.extent.span cs).LiesIn cs) ∨
    ∃ p, r = .ok p ∧ p.Within cs tokens

theorem ReadsWithin.error
    {err : Located} (hplace : (err.extent.span cs).LiesIn cs) :
    ReadsWithin cs tokens (.error err : Except Located (Parsed n α)) :=
  Or.inl ⟨err, rfl, hplace⟩

theorem ReadsWithin.ok
    {p : Parsed n α} (hp : p.Within cs tokens) :
    ReadsWithin cs tokens (.ok p) :=
  Or.inr ⟨p, rfl, hp⟩

theorem mem_of_next?
    {kind : TokenKind} {t : Token} (hnext : next? kind tokens = some t) :
    t ∈ tokens := by
  cases tokens with
  | nil =>
      cases hnext
  | cons u us =>
      simp only [next?] at hnext
      split at hnext
      · obtain rfl := Option.some.inj hnext
        exact List.mem_cons_self
      · cases hnext

end Results

section Readers

variable {cs : List Char}

theorem readOpening_within
    (limit : Nat) (keyword : Connective) (depth : Nat)
    {last : Span} (hlast : last.LiesIn cs) {tokens : List Token} (hlaid : Laid cs tokens) :
    ReadsWithin cs tokens (readOpening limit keyword depth last tokens) := by
  cases tokens with
  | nil =>
      exact .error hlast.onward
  | cons t ts =>
      simp only [readOpening]
      split
      · split
        · exact .error hlaid.head
        · exact .ok ⟨List.suffix_cons t ts, hlaid.head⟩
      · exact .error hlaid.head

theorem readClosing_within
    (keyword : Connective) {head : Span} (hhead : head.LiesIn cs) (depth : Nat)
    {tokens : List Token} (hlaid : Laid cs tokens) :
    ReadsWithin cs tokens (readClosing keyword head depth tokens) := by
  cases tokens with
  | nil =>
      exact .error hhead.onward
  | cons t ts =>
      simp only [readClosing]
      split
      · exact .ok ⟨List.suffix_cons t ts, hlaid.head⟩
      · exact .error hlaid.head

mutual

theorem readOperand_within
    (limit depth : Nat) {last : Span} (hlast : last.LiesIn cs) :
    ∀ {tokens : List Token}, Laid cs tokens →
      ReadsWithin cs tokens (readOperand limit depth last tokens)
  | [], _ => by
      rw [readOperand]
      exact .error hlast.onward
  | t :: ts, hlaid => by
      have ht := hlaid.head
      have hts := List.suffix_cons t ts
      rw [readOperand]
      cases t.kind with
      | literal l =>
          exact .ok ⟨hts, ht⟩
      | operator op =>
          dsimp only
          split
          · rename_i connective _ _ _
            rcases readOpening_within limit connective depth ht hlaid.tail with
              ⟨err, hopen, hplace⟩ | ⟨o, hopen, ho⟩
            · rw [hopen]
              exact .error hplace
            · rw [hopen]
              have hfewer := o.fewer
              have hrest := hlaid.tail.of_suffix ho.rest
              dsimp only
              cases hclose : next? .closeParen o.rest with
              | some close =>
                  -- only this fault ends where another token does: it needs their order
                  exact .error (hlaid.through (ho.rest.subset (mem_of_next? hclose)))
              | none =>
                  dsimp only
                  rcases readOperands_within limit o.depth ho.last hrest with
                    ⟨err, hread, hplace⟩ | ⟨xs, hread, hxs⟩
                  · rw [hread]
                    exact .error hplace
                  · rw [hread]
                    dsimp only
                    rcases readClosing_within connective ht xs.depth
                        (hrest.of_suffix hxs.rest) with
                      ⟨err, hend, hplace⟩ | ⟨c, hend, hc⟩
                    · rw [hend]
                      exact .error hplace
                    · rw [hend]
                      exact .ok (hc.widen _ _ ((hxs.rest.trans ho.rest).trans hts))
          · exact .ok ⟨hts, ht⟩
      | _ =>
          exact .error ht
termination_by tokens => (tokens.length, 0)

theorem readOperands_within
    (limit depth : Nat) {last : Span} (hlast : last.LiesIn cs)
    {tokens : List Token} (hlaid : Laid cs tokens) :
    ReadsWithin cs tokens (readOperands limit depth last tokens) := by
  rw [readOperands]
  rcases readOperand_within limit depth hlast hlaid with
    ⟨err, hread, hplace⟩ | ⟨⟨x, rest, last, depth, hfewer⟩, hread, hx⟩
  · rw [hread]
    exact .error hplace
  · rw [hread]
    cases rest with
    | nil =>
        exact .ok ⟨hx.rest, hx.last⟩
    | cons t ts =>
        have hts : ts.length < tokens.length := Nat.lt_of_succ_lt hfewer
        have hrest := hlaid.of_suffix hx.rest
        dsimp only
        split
        · rcases readOperands_within limit depth hrest.head hrest.tail with
            ⟨err, hmore, hplace⟩ | ⟨xs, hmore, hxs⟩
          · rw [hmore]
            exact .error hplace
          · rw [hmore]
            exact .ok (hxs.widen _ _ ((List.suffix_cons t ts).trans hx.rest))
        · exact .ok ⟨hx.rest, hx.last⟩
termination_by (tokens.length, 1)

end

theorem readBarred_within
    (limit depth : Nat) {last : Span} (hlast : last.LiesIn cs) :
    ∀ {tokens : List Token}, Laid cs tokens →
      ReadsWithin cs tokens (readBarred limit depth last tokens)
  | [], _ => by
      rw [readBarred]
      exact .ok ⟨List.suffix_refl [], hlast⟩
  | t :: ts, hlaid => by
      rw [readBarred]
      split
      · rcases readOperand_within limit depth hlaid.head hlaid.tail with
          ⟨err, hread, hplace⟩ | ⟨x, hread, hx⟩
        · rw [hread]
          exact .error hplace
        · rw [hread]
          have hfewer := x.fewer
          dsimp only
          rcases readBarred_within limit x.depth hx.last (hlaid.tail.of_suffix hx.rest) with
            ⟨err, hmore, hplace⟩ | ⟨xs, hmore, hxs⟩
          · rw [hmore]
            exact .error hplace
          · rw [hmore]
            exact .ok (hxs.widen _ _ (hx.rest.trans (List.suffix_cons t ts)))
      · exact .ok ⟨List.suffix_refl _, hlast⟩
termination_by tokens => tokens.length

theorem readOperation_within
    (limit : Nat) (op : Operator) {head : Span} (hhead : head.LiesIn cs) (depth : Nat)
    {tokens : List Token} (hlaid : Laid cs tokens) :
    ReadsWithin cs tokens (readOperation limit op head depth tokens) := by
  unfold readOperation
  rcases readBarred_within limit depth hhead hlaid with
    ⟨err, hread, hplace⟩ | ⟨xs, hread, hxs⟩
  · rw [hread]
    exact .error hplace
  · rw [hread]
    dsimp only
    cases hopen : next? .openParen xs.rest with
    | some t =>
        exact .error ((hlaid.of_suffix hxs.rest).within t (mem_of_next? hopen))
    | none =>
        cases op.apply? xs.value with
        | some e =>
            exact .ok (hxs.widen _ _ (List.suffix_refl tokens))
        | none =>
            exact .error (hhead.cover hxs.last)

theorem literalFault_extent
    (holder : Option Connective) (l : Literal) (span : Span) (ahead : List Token) :
    (literalFault holder l span ahead).extent = .within span := by
  cases holder <;> simp only [literalFault] <;> split <;> rfl

mutual

theorem readExpr_within
    (limit : Nat) (holder : Option Connective) (depth : Nat)
    {last : Span} (hlast : last.LiesIn cs) :
    ∀ {tokens : List Token}, Laid cs tokens →
      ReadsWithin cs tokens (readExpr limit holder depth last tokens)
  | [], _ => by
      rw [readExpr]
      exact .error hlast.onward
  | t :: ts, hlaid => by
      have ht := hlaid.head
      have hts := List.suffix_cons t ts
      rw [readExpr]
      cases t.kind with
      | operator op =>
          dsimp only
          cases op.connective? with
          | none =>
              rcases readOperation_within limit op ht depth hlaid.tail with
                ⟨err, hread, hplace⟩ | ⟨p, hread, hp⟩
              · dsimp only
                rw [hread]
                exact .error hplace
              · dsimp only
                rw [hread]
                exact .ok ⟨hp.rest.trans hts, hp.last⟩
          | some keyword =>
              dsimp only
              rcases readOpening_within limit keyword depth ht hlaid.tail with
                ⟨err, hopen, hplace⟩ | ⟨o, hopen, ho⟩
              · rw [hopen]
                exact .error hplace
              · rw [hopen]
                have hfewer := o.fewer
                have hrest := hlaid.tail.of_suffix ho.rest
                dsimp only
                cases hclose : next? .closeParen o.rest with
                | some close =>
                    exact .error (ht.cover (hrest.within close (mem_of_next? hclose)))
                | none =>
                    dsimp only
                    rcases readExprs_within limit keyword o.depth ho.last hrest with
                      ⟨err, hread, hplace⟩ | ⟨es, hread, hes⟩
                    · rw [hread]
                      exact .error hplace
                    · rw [hread]
                      have hbehind := hrest.of_suffix hes.rest
                      dsimp only
                      cases keyword.apply? es.value with
                      | none =>
                          -- the last token counts as read if it closes the node
                          refine .error (ht.cover ?_)
                          cases hlast : next? .closeParen es.rest with
                          | none =>
                              exact hes.last
                          | some close =>
                              exact hbehind.within close (mem_of_next? hlast)
                      | some expr =>
                          dsimp only
                          rcases readClosing_within keyword ht es.depth hbehind with
                            ⟨err, hend, hplace⟩ | ⟨c, hend, hc⟩
                          · rw [hend]
                            exact .error hplace
                          · rw [hend]
                            exact .ok (hc.widen _ _ ((hes.rest.trans ho.rest).trans hts))
      | literal l =>
          refine .error ?_
          rw [literalFault_extent]
          exact ht
      | _ =>
          exact .error ht
termination_by tokens => (tokens.length, 0)

theorem readExprs_within
    (limit : Nat) (holder : Connective) (depth : Nat)
    {last : Span} (hlast : last.LiesIn cs)
    {tokens : List Token} (hlaid : Laid cs tokens) :
    ReadsWithin cs tokens (readExprs limit holder depth last tokens) := by
  rw [readExprs]
  rcases readExpr_within limit (some holder) depth hlast hlaid with
    ⟨err, hread, hplace⟩ | ⟨⟨x, rest, last, depth, hfewer⟩, hread, hx⟩
  · rw [hread]
    exact .error hplace
  · rw [hread]
    cases rest with
    | nil =>
        exact .ok ⟨hx.rest, hx.last⟩
    | cons t ts =>
        have hts : ts.length < tokens.length := Nat.lt_of_succ_lt hfewer
        have hrest := hlaid.of_suffix hx.rest
        dsimp only
        split
        · rcases readExprs_within limit holder depth hrest.head hrest.tail with
            ⟨err, hmore, hplace⟩ | ⟨xs, hmore, hxs⟩
          · rw [hmore]
            exact .error hplace
          · rw [hmore]
            exact .ok (hxs.widen _ _ ((List.suffix_cons t ts).trans hx.rest))
        · exact .ok ⟨hx.rest, hx.last⟩
termination_by (tokens.length, 1)

end

/-- The first token takes the place of the last one read: none was read before it. -/
theorem readExpr_cons
    (limit : Nat) (holder : Option Connective) (depth : Nat)
    (last last' : Span) (t : Token) (ts : List Token) :
    readExpr limit holder depth last (t :: ts) = readExpr limit holder depth last' (t :: ts) := by
  rw [readExpr, readExpr]

/-- The fault of a list of tokens, if there are any, is about a part of their text. -/
theorem readTokens_within
    {limit : Nat} {t : Token} {ts : List Token} {err : Located}
    (hlaid : Laid cs (t :: ts)) (hread : readTokens limit (t :: ts) = .error err) :
    (err.extent.span cs).LiesIn cs := by
  rw [readTokens, readExpr_cons limit none 0 _ t.span] at hread
  · rcases readExpr_within limit none 0 hlaid.head hlaid with
      ⟨err', hfirst, hplace⟩ | ⟨p, hfirst, hp⟩
    · rw [hfirst] at hread
      obtain rfl := Except.error.inj hread
      exact hplace
    · rw [hfirst] at hread
      dsimp only at hread
      split at hread
      · cases hread
      · rename_i u us hrest
        obtain rfl := Except.error.inj hread
        exact hlaid.within u (hp.rest.subset (by simp [hrest]))
  · simp

end Readers

section Errors

variable {limits : Limits} {query : String}

/--
A syntax error shows a piece of the query and says behind how many bytes it stands:
the piece is empty only if the query is.
-/
structure SyntaxError.PointsInto (err : SyntaxError) (query : String) : Prop where
  query_eq : err.query = query
  place : ∃ before after : String,
    query = before ++ err.fragment ++ after ∧ before.utf8ByteSize = err.position
  nonempty : err.fragment = "" → query = ""

theorem Located.position_eq
    (err : Located) (cs : List Char) :
    err.position = (err.extent.span cs).start := by
  unfold position
  cases err.extent <;> rfl

theorem Located.fragment_eq
    (err : Located) (cs : List Char) :
    err.fragment cs = Text.slice cs (err.extent.span cs).start (err.extent.span cs).stop := by
  unfold fragment
  cases err.extent <;> rfl

/-- The syntax error of a fault about a part of the query shows that part. -/
theorem Located.toError_pointsInto
    {err : Located} (hplace : (err.extent.span query.toList).LiesIn query.toList) :
    (err.toError query).PointsInto query := by
  obtain ⟨before, after, hquery, hbefore, hbytes⟩ :=
    Text.exists_slice hplace.start hplace.stop hplace.nonempty.le
  rw [← err.fragment_eq] at hquery hbytes
  rw [← err.position_eq] at hbefore
  refine ⟨rfl, ⟨String.ofList before, String.ofList after, ?_, ?_⟩, ?_⟩
  · have hseams := congrArg String.ofList hquery
    rw [String.ofList_toList, String.ofList_append, String.ofList_append,
      ← String.append_assoc] at hseams
    exact hseams
  · rw [Text.utf8ByteSize_ofList]
    exact hbefore
  · intro hempty
    have hnil : err.fragment query.toList = [] := by
      simpa [toError] using congrArg String.toList hempty
    have hless := hplace.nonempty
    rw [hnil, Text.byteLength_nil] at hbytes
    omega

/-- A fault about the whole query shows all of it. -/
theorem toError_whole_pointsInto
    (fault : Fault) (query : String) :
    (Located.toError query ⟨fault, .onward 0⟩).PointsInto query := by
  have hwhole := toError_onward (List.nil_append query.toList).symm fault
  rw [Text.byteLength_nil, String.ofList_toList] at hwhole
  rw [hwhole]
  exact ⟨rfl, ⟨"", "", by simp, rfl⟩, id⟩

theorem lex_error_within
    {err : Located} (hlex : lex limits query = .error err) :
    (err.extent.span query.toList).LiesIn query.toList := by
  rcases lex_eq_error_iff.1 hlex with
    ⟨t, ⟨front, behind, tokens, hquery, hlexing, ht⟩, rfl⟩ | ⟨front, rest, hopen, rfl⟩
  · rw [hquery]
    exact hlexing.laid.within t (List.mem_of_getElem? ht)
  · rw [hopen.1]
    refine ⟨Text.isBoundary_byteLength _ _, ⟨_, [], by simp, rfl⟩, ?_⟩
    have hpos := Char.utf8Size_pos '"'
    simp only [Extent.span, Text.byteLength_append, Text.byteLength_cons]
    omega

theorem read_error_pointsInto
    {err : Located} (hread : read limits query = .error err) :
    (err.toError query).PointsInto query := by
  unfold read at hread
  split at hread
  · rename_i err' hlex
    obtain rfl := Except.error.inj hread
    exact Located.toError_pointsInto (lex_error_within hlex)
  · rename_i tokens hlex
    have hlaid := (lex_eq_ok_iff.1 hlex).2.laid
    rw [List.append_nil] at hlaid
    cases tokens with
    | nil =>
        obtain rfl := Except.error.inj hread
        exact toError_whole_pointsInto .emptyQuery query
    | cons t ts =>
        exact Located.toError_pointsInto (readTokens_within hlaid hread)

theorem parse_eq_error_iff
    {err : SyntaxError} :
    parse limits query = .error err ↔
      ∃ located, read limits query = .error located ∧ located.toError query = err := by
  unfold parse
  cases read limits query <;> simp [Except.mapError]

/--
**Every syntax error points into its query.**  It carries the query, and the fragment
it shows stands there behind as many bytes as its position says, so the position is
neither inside a character nor beyond the end; no fragment is empty, but for the
empty query.
-/
theorem syntax_errors_point_into_query
    (limits : Limits) (query : String) (err : SyntaxError)
    (herr : tokenize limits query = .error err ∨ parse limits query = .error err) :
    err.PointsInto query := by
  rcases herr with herr | herr
  · obtain ⟨located, hlex, rfl⟩ := tokenize_eq_error_iff.1 herr
    exact Located.toError_pointsInto (lex_error_within hlex)
  · unfold parse at herr
    cases hread : read limits query with
    | ok e =>
        rw [hread] at herr
        cases herr
    | error located =>
        rw [hread] at herr
        obtain rfl := Except.error.inj herr
        exact read_error_pointsInto hread

/-- The fault is about the second of two operations, which begins behind a two-byte letter. -/
theorem syntax_errors_point_into_query_multibyte :
    parse {} "or(exists|ß,gt|ü)" =
        .error ⟨.arity, "'gt' takes exactly 2 operands (field|value), found 1", "gt|ü", 13,
          "or(exists|ß,gt|ü)"⟩ ∧
      SyntaxError.PointsInto
        ⟨.arity, "'gt' takes exactly 2 operands (field|value), found 1", "gt|ü", 13,
          "or(exists|ß,gt|ü)"⟩
        "or(exists|ß,gt|ü)" := by
  have hread :
      read {} "or(exists|ß,gt|ü)" =
        .error ⟨.wrongArity (.compare (.bound .lower false)) 1, .within ⟨13, 18⟩⟩ := by
    cbv
  have hparse :
      parse {} "or(exists|ß,gt|ü)" =
        .error ⟨.arity, "'gt' takes exactly 2 operands (field|value), found 1", "gt|ü", 13,
          "or(exists|ß,gt|ü)"⟩ := by
    rw [parse, hread]
    rfl
  exact ⟨hparse, syntax_errors_point_into_query {} _ _ (Or.inr hparse)⟩

end Errors

end FieldQuery
