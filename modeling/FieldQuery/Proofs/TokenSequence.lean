import FieldQuery.Proofs.QueryGrammar
import FieldQuery.Proofs.TokenSpelling

/-!
# The tokens of a text

The lexing of a text is told by places alone: its tokens are pieces of the text, in
order and apart from each other; what is outside them is white space; each is what
its own text says; and a word is followed by what cannot belong to it.

The same tokens are found from left to right, where each step skips white space or
takes the token at the front.  What the reader returns follows from this, since
every text is lexed either up to its end or up to a quote that is never closed.

**Results.**

* `IsLexing.append`, `IsLexing.drop`, `IsLexing.take`: a text is lexed part by part;
* `isLexing_iff_scans`: lexing by places is lexing from left to right;
* `exists_scans`: every text has a lexing up to its end or an unclosed quote;
* `Scans.tokensFrom_of_le`, `Scans.tokensFrom_of_lt`: what the reader makes of it;
* `tokenize_exact`: when reading the tokens of a query succeeds, and how it fails.
-/

namespace FieldQuery

section Places

/-- A token is what stands in a text from byte `pos` on, between two other parts of it. -/
def Token.Between (t : Token) (pos : Nat) (cs before after : List Char) : Prop :=
  cs = before ++ (t.text.toList ++ after) ∧ t.start = pos + Text.byteLength before

/--
The tokens are the lexing of `front`, a text that begins at byte `pos` and that
`behind` follows.
-/
structure IsLexing
    (pos : Nat) (front behind : List Char) (tokens : List Token) : Prop where
  /-- No token is empty. -/
  nonempty : ∀ t ∈ tokens, t.start < t.stop
  /-- Each token ends before the next ones begin. -/
  ordered : tokens.Pairwise fun t u => t.stop ≤ u.start
  /-- Each token is a piece of the text, cut between characters. -/
  placed : ∀ t ∈ tokens, ∃ before after, t.Between pos front before after
  /-- A character outside every token is white space. -/
  blank : ∀ before c after, front = before ++ c :: after →
    (∀ t ∈ tokens, pos + Text.byteLength before < t.start
      ∨ t.stop ≤ pos + Text.byteLength before) →
    Text.isBlank c = true
  /-- Each token means what its own text says. -/
  spelt : ∀ t ∈ tokens, Spells t.text.toList t.kind
  /-- No word could be longer. -/
  maximal : ∀ t ∈ tokens, IsWord t.text.toList →
    ∀ before after, t.Between pos front before after → StopsWord (after ++ behind)

/-- The tokens that a text in front of `behind` has when it is read from left to right. -/
inductive Scans (behind : List Char) : Nat → List Char → List Token → Prop
  | nil
      {pos : Nat} :
      Scans behind pos [] []
  | blank
      {pos : Nat} {c : Char} {front : List Char} {tokens : List Token}
      (hblank : Text.isBlank c = true)
      (hscans : Scans behind (pos + c.utf8Size) front tokens) :
      Scans behind pos (c :: front) tokens
  | token
      {t : Token} {front : List Char} {tokens : List Token}
      (hspells : Spells t.text.toList t.kind)
      (hstop : IsWord t.text.toList → StopsWord (front ++ behind))
      (hscans : Scans behind t.stop front tokens) :
      Scans behind t.start (t.text.toList ++ front) (t :: tokens)

variable {pos : Nat} {front behind : List Char} {t : Token} {tokens : List Token}

theorem Token.stop_eq (t : Token) :
    t.stop = t.start + Text.byteLength t.text.toList := by
  rw [← Text.utf8ByteSize_ofList, String.ofList_toList]
  rfl

theorem Spells.start_lt_stop
    (hspells : Spells t.text.toList t.kind) :
    t.start < t.stop := by
  obtain ⟨c, cs, htext, _⟩ := hspells.exists_cons
  have hpos := c.utf8Size_pos
  rw [t.stop_eq, htext, Text.byteLength_cons]
  omega

/-- A token that begins behind the first part of a text is between parts of the second. -/
theorem Token.Between.drop
    {first before after : List Char}
    (hbetween : t.Between pos (first ++ front) before after)
    (hle : pos + Text.byteLength first ≤ t.start) :
    ∃ before', before = first ++ before' ∧
      t.Between (pos + Text.byteLength first) front before' after := by
  obtain ⟨hcs, hstart⟩ := hbetween
  obtain ⟨before', rfl, hfront⟩ :=
    Text.exists_append_of_byteLength_le hcs (by omega)
  refine ⟨before', rfl, hfront, ?_⟩
  rw [hstart, Text.byteLength_append]
  omega

/-- A token that ends in the first part of a text is between parts of that. -/
theorem Token.Between.take
    {first before after : List Char}
    (hbetween : t.Between pos (first ++ front) before after)
    (hle : t.stop ≤ pos + Text.byteLength first) :
    ∃ after', after = after' ++ front ∧ t.Between pos first before after' := by
  obtain ⟨hcs, hstart⟩ := hbetween
  rw [t.stop_eq, hstart] at hle
  have hseams : (before ++ t.text.toList) ++ after = first ++ front := by
    rw [hcs, List.append_assoc]
  obtain ⟨after', hfirst, hafter⟩ :=
    Text.exists_append_of_byteLength_le hseams (by rw [Text.byteLength_append]; omega)
  exact ⟨after', hafter, by rw [hfirst, List.append_assoc], hstart⟩

theorem Token.Between.prepend
    {before after : List Char} (first : List Char)
    (hbetween : t.Between (pos + Text.byteLength first) front before after) :
    t.Between pos (first ++ front) (first ++ before) after := by
  obtain ⟨rfl, hstart⟩ := hbetween
  refine ⟨by simp, ?_⟩
  rw [hstart, Text.byteLength_append]
  omega

theorem Token.Between.extend
    {first before after : List Char}
    (hbetween : t.Between pos first before after) (front : List Char) :
    t.Between pos (first ++ front) before (after ++ front) := by
  obtain ⟨rfl, hstart⟩ := hbetween
  exact ⟨by simp, hstart⟩

theorem IsLexing.le_start
    (hlexing : IsLexing pos front behind tokens) (ht : t ∈ tokens) :
    pos ≤ t.start := by
  obtain ⟨before, _, _, hstart⟩ := hlexing.placed t ht
  omega

theorem IsLexing.stop_le
    (hlexing : IsLexing pos front behind tokens) (ht : t ∈ tokens) :
    t.stop ≤ pos + Text.byteLength front := by
  obtain ⟨before, after, rfl, hstart⟩ := hlexing.placed t ht
  rw [t.stop_eq, hstart, Text.byteLength_append, Text.byteLength_append]
  omega

theorem IsLexing.nil : IsLexing pos [] behind [] := by
  constructor <;> simp

theorem IsLexing.eq_nil
    (hlexing : IsLexing pos [] behind tokens) :
    tokens = [] := by
  cases tokens with
  | nil =>
      rfl
  | cons t ts =>
      obtain ⟨before, after, hcs, _⟩ := hlexing.placed t (by simp)
      obtain ⟨c, cs, htext, _⟩ := (hlexing.spelt t (by simp)).exists_cons
      simp [htext] at hcs

/-- White space has no token. -/
theorem IsLexing.blank_char
    {c : Char} (hblank : Text.isBlank c = true) :
    IsLexing pos [c] behind [] := by
  constructor
  · simp
  · simp
  · simp
  · intro before d after hcs _
    have hd : d ∈ [c] := by
      rw [hcs]
      simp
    rw [List.mem_singleton.1 hd]
    exact hblank
  · simp
  · simp

/-- The text of a token has that token and no other. -/
theorem IsLexing.single
    (hspells : Spells t.text.toList t.kind)
    (hstop : IsWord t.text.toList → StopsWord behind) :
    IsLexing t.start t.text.toList behind [t] := by
  constructor
  · simpa using hspells.start_lt_stop
  · simp
  · simp only [List.mem_singleton, forall_eq]
    exact ⟨[], [], by simp, rfl⟩
  · intro before c after hcs hoff
    -- every character of the text is inside the token
    have hbytes := congrArg Text.byteLength hcs
    have hpos := c.utf8Size_pos
    have hofft := hoff t (by simp)
    rw [t.stop_eq] at hofft
    rw [Text.byteLength_append, Text.byteLength_cons] at hbytes
    omega
  · simpa using hspells
  · simp only [List.mem_singleton, forall_eq]
    rintro hword before after ⟨hcs, _⟩
    have hlength := congrArg List.length hcs
    simp only [List.length_append] at hlength
    have hafter : after = [] := List.length_eq_zero_iff.1 (by omega)
    rw [hafter]
    exact hstop hword

/-- **The lexings of two parts of a text make up a lexing of the whole.** -/
theorem IsLexing.append
    {first : List Char} {earlier : List Token}
    (hearlier : IsLexing pos first (front ++ behind) earlier)
    (hlexing : IsLexing (pos + Text.byteLength first) front behind tokens) :
    IsLexing pos (first ++ front) behind (earlier ++ tokens) := by
  constructor
  · intro t ht
    rcases List.mem_append.1 ht with ht | ht
    · exact hearlier.nonempty t ht
    · exact hlexing.nonempty t ht
  · refine List.pairwise_append.2 ⟨hearlier.ordered, hlexing.ordered, ?_⟩
    intro t ht u hu
    exact (hearlier.stop_le ht).trans (hlexing.le_start hu)
  · intro t ht
    rcases List.mem_append.1 ht with ht | ht
    · obtain ⟨before, after, hbetween⟩ := hearlier.placed t ht
      exact ⟨before, after ++ front, hbetween.extend front⟩
    · obtain ⟨before, after, hbetween⟩ := hlexing.placed t ht
      exact ⟨first ++ before, after, hbetween.prepend first⟩
  · intro before c after hcs hoff
    -- the character is in the second part, or the seam is behind it
    by_cases hle : Text.byteLength first ≤ Text.byteLength before
    · obtain ⟨before', rfl, hfront⟩ := Text.exists_append_of_byteLength_le hcs hle
      refine hlexing.blank before' c after hfront fun t ht => ?_
      have hofft := hoff t (List.mem_append.2 (Or.inr ht))
      rw [Text.byteLength_append] at hofft
      omega
    · obtain ⟨m, rfl, hrest⟩ :=
        Text.exists_append_of_byteLength_le hcs.symm (by omega)
      cases m with
      | nil =>
          simp at hle
      | cons d after' =>
          obtain ⟨rfl, _⟩ := List.cons.inj hrest
          refine hearlier.blank before c after' rfl fun t ht => ?_
          exact hoff t (List.mem_append.2 (Or.inl ht))
  · intro t ht
    rcases List.mem_append.1 ht with ht | ht
    · exact hearlier.spelt t ht
    · exact hlexing.spelt t ht
  · intro t ht hword before after hbetween
    rcases List.mem_append.1 ht with ht | ht
    · obtain ⟨after', rfl, hfirst⟩ := hbetween.take (hearlier.stop_le ht)
      rw [List.append_assoc]
      exact hearlier.maximal t ht hword before after' hfirst
    · obtain ⟨before', _, hfront⟩ := hbetween.drop (hlexing.le_start ht)
      exact hlexing.maximal t ht hword before' after hfront

/-- The tokens behind the first part of a text, where the other tokens are in that part. -/
theorem IsLexing.drop
    {first : List Char} (earlier : List Token)
    (hlexing : IsLexing pos (first ++ front) behind (earlier ++ tokens))
    (hstop : ∀ t ∈ earlier, t.stop ≤ pos + Text.byteLength first)
    (hstart : ∀ t ∈ tokens, pos + Text.byteLength first ≤ t.start) :
    IsLexing (pos + Text.byteLength first) front behind tokens := by
  have hmem : ∀ t ∈ tokens, t ∈ earlier ++ tokens := by
    intro t ht
    exact List.mem_append.2 (Or.inr ht)
  constructor
  · intro t ht
    exact hlexing.nonempty t (hmem t ht)
  · exact (List.pairwise_append.1 hlexing.ordered).2.1
  · intro t ht
    obtain ⟨before, after, hbetween⟩ := hlexing.placed t (hmem t ht)
    obtain ⟨before', _, hfront⟩ := hbetween.drop (hstart t ht)
    exact ⟨before', after, hfront⟩
  · intro before c after hfront hoff
    refine hlexing.blank (first ++ before) c after (by simp [hfront]) fun t ht => ?_
    rw [Text.byteLength_append]
    rcases List.mem_append.1 ht with ht | ht
    · have hbefore := hstop t ht
      omega
    · have hofft := hoff t ht
      omega
  · intro t ht
    exact hlexing.spelt t (hmem t ht)
  · intro t ht hword before after hbetween
    exact hlexing.maximal t (hmem t ht) hword (first ++ before) after (hbetween.prepend first)

/-- The tokens in the first part of a text, where the other tokens are behind that part. -/
theorem IsLexing.take
    {first : List Char} (earlier : List Token)
    (hlexing : IsLexing pos (first ++ front) behind (earlier ++ tokens))
    (hstop : ∀ t ∈ earlier, t.stop ≤ pos + Text.byteLength first)
    (hstart : ∀ t ∈ tokens, pos + Text.byteLength first ≤ t.start) :
    IsLexing pos first (front ++ behind) earlier := by
  have hmem : ∀ t ∈ earlier, t ∈ earlier ++ tokens := by
    intro t ht
    exact List.mem_append.2 (Or.inl ht)
  constructor
  · intro t ht
    exact hlexing.nonempty t (hmem t ht)
  · exact (List.pairwise_append.1 hlexing.ordered).1
  · intro t ht
    obtain ⟨before, after, hbetween⟩ := hlexing.placed t (hmem t ht)
    obtain ⟨after', _, hfirst⟩ := hbetween.take (hstop t ht)
    exact ⟨before, after', hfirst⟩
  · intro before c after hfirst hoff
    refine hlexing.blank before c (after ++ front) (by simp [hfirst]) fun t ht => ?_
    rcases List.mem_append.1 ht with ht | ht
    · exact hoff t ht
    · -- the character is in the first part, and the token behind it
      have hbytes := congrArg Text.byteLength hfirst
      have hpos := c.utf8Size_pos
      have hbehind := hstart t ht
      rw [Text.byteLength_append, Text.byteLength_cons] at hbytes
      omega
  · intro t ht
    exact hlexing.spelt t (hmem t ht)
  · intro t ht hword before after hbetween
    rw [← List.append_assoc]
    exact hlexing.maximal t (hmem t ht) hword before (after ++ front) (hbetween.extend front)

/-- No token begins with white space. -/
theorem IsLexing.of_blank_cons
    {c : Char} (hblank : Text.isBlank c = true)
    (hlexing : IsLexing pos (c :: front) behind tokens) :
    IsLexing (pos + Text.byteLength [c]) front behind tokens := by
  refine IsLexing.drop [] hlexing (by simp) fun t ht => ?_
  obtain ⟨before, after, hcs, hstart⟩ := hlexing.placed t ht
  obtain ⟨d, ds, htext, hd⟩ := (hlexing.spelt t ht).exists_cons
  cases before with
  | nil =>
      rw [htext] at hcs
      obtain ⟨rfl, _⟩ := List.cons.inj hcs
      simp [hblank] at hd
  | cons _ before =>
      obtain ⟨rfl, _⟩ := List.cons.inj hcs
      rw [Text.byteLength_cons] at hstart
      simp only [Text.byteLength_cons, Text.byteLength_nil]
      omega

/-- What stands behind the first token, where the text begins with it. -/
theorem IsLexing.of_token_append
    (hlexing : IsLexing t.start (t.text.toList ++ front) behind (t :: tokens)) :
    (IsWord t.text.toList → StopsWord (front ++ behind)) ∧
      IsLexing t.stop front behind tokens := by
  constructor
  · intro hword
    exact hlexing.maximal t (by simp) hword [] front ⟨rfl, rfl⟩
  · have hstop := t.stop_eq
    rw [hstop]
    refine IsLexing.drop [t] hlexing ?_ fun u hu => ?_
    · simp [hstop]
    · rw [← hstop]
      exact List.rel_of_pairwise_cons hlexing.ordered hu

/-- Where a text does not begin with white space, its first token begins. -/
theorem IsLexing.exists_first
    {c : Char} (hblank : Text.isBlank c = false)
    (hlexing : IsLexing pos (c :: front) behind tokens) :
    ∃ t ts rest, tokens = t :: ts ∧ t.start = pos ∧ c :: front = t.text.toList ++ rest := by
  -- some token is not apart from the first byte
  have hcovered : ∃ t ∈ tokens, t.start ≤ pos ∧ pos < t.stop := by
    by_contra hnone
    push Not at hnone
    have hc := hlexing.blank [] c front rfl fun t ht => by
      have hapart := hnone t ht
      simp only [Text.byteLength_nil, Nat.add_zero]
      omega
    simp [hblank] at hc
  obtain ⟨t, ht, hstart, hstop⟩ := hcovered
  have hpos := hlexing.le_start ht
  obtain ⟨before, rest, hcs, hbefore⟩ := hlexing.placed t ht
  have hnil : before = [] := Text.byteLength_eq_zero_iff.1 (by omega)
  subst hnil
  cases tokens with
  | nil =>
      cases ht
  | cons u us =>
      rcases List.mem_cons.1 ht with rfl | htail
      · exact ⟨t, us, rest, rfl, by omega, hcs⟩
      · -- an earlier token would end before the text begins
        have hstop' := List.rel_of_pairwise_cons hlexing.ordered htail
        have hnonempty := hlexing.nonempty u (by simp)
        have hpos' := hlexing.le_start (t := u) (by simp)
        omega

theorem Scans.isLexing
    (hscans : Scans behind pos front tokens) :
    IsLexing pos front behind tokens := by
  induction hscans with
  | nil =>
      exact .nil
  | @blank pos c front tokens hblank _ ih =>
      have hskip : Text.byteLength [c] = c.utf8Size := by
        simp
      rw [← hskip] at ih
      exact (IsLexing.blank_char hblank).append ih
  | token hspells hstop _ ih =>
      rw [Token.stop_eq] at ih
      exact (IsLexing.single hspells hstop).append ih

theorem IsLexing.scans :
    ∀ {pos : Nat} {front : List Char} {tokens : List Token},
      IsLexing pos front behind tokens → Scans behind pos front tokens
  | pos, [], tokens, hlexing => by
      obtain rfl := hlexing.eq_nil
      exact .nil
  | pos, c :: front, tokens, hlexing => by
      cases hblank : Text.isBlank c with
      | true =>
          have hrest := hlexing.of_blank_cons hblank
          rw [Text.byteLength_cons, Text.byteLength_nil, Nat.add_zero] at hrest
          exact .blank hblank hrest.scans
      | false =>
          obtain ⟨t, ts, rest, rfl, rfl, hcs⟩ := hlexing.exists_first hblank
          have hspells := hlexing.spelt t (by simp)
          have hshorter : rest.length < front.length + 1 := by
            obtain ⟨d, ds, htext, _⟩ := hspells.exists_cons
            have hlength := congrArg List.length hcs
            simp [htext] at hlength
            omega
          rw [hcs] at hlexing ⊢
          obtain ⟨hstop, hrest⟩ := hlexing.of_token_append
          exact .token hspells hstop hrest.scans
termination_by _ front => front.length

/-- **Lexing by places is lexing from left to right.** -/
theorem isLexing_iff_scans :
    IsLexing pos front behind tokens ↔ Scans behind pos front tokens :=
  ⟨IsLexing.scans, Scans.isLexing⟩

end Places

section Reading

variable {pos : Nat} {front behind : List Char} {tokens : List Token} {room : Nat}

/-- Where the lexing of a text stops: at its end, or at a quote that is never closed. -/
def EndsLexing (behind : List Char) : Prop :=
  behind = [] ∨ ∃ rest, behind = '"' :: rest ∧ Unclosed rest

/-- **Every text has a lexing** up to its end or up to an unclosed quote. -/
theorem exists_scans :
    ∀ (pos : Nat) (cs : List Char),
      ∃ front behind tokens, cs = front ++ behind ∧ Scans behind pos front tokens ∧
        EndsLexing behind
  | pos, [] => by
      exact ⟨[], [], [], rfl, .nil, Or.inl rfl⟩
  | pos, c :: cs => by
      cases hblank : Text.isBlank c with
      | true =>
          obtain ⟨front, behind, tokens, rfl, hscans, hend⟩ :=
            exists_scans (pos + c.utf8Size) cs
          exact ⟨c :: front, behind, tokens, rfl, .blank hblank hscans, hend⟩
      | false =>
          cases hread : readLexeme c cs with
          | none =>
              obtain ⟨rfl, hunclosed⟩ := readLexeme_eq_none_iff.1 hread
              exact ⟨[], '"' :: cs, [], rfl, .nil, Or.inr ⟨cs, rfl, hunclosed⟩⟩
          | some x =>
              have hshorter := readLexeme_rest_length hread
              obtain ⟨hcs, hspells, hstop⟩ := (readLexeme_eq_some_iff hblank).1 hread
              let t : Token := ⟨x.kind, String.ofList x.text, pos⟩
              have htext : t.text.toList = x.text := String.toList_ofList
              obtain ⟨front, behind, tokens, hrest, hscans, hend⟩ :=
                exists_scans t.stop x.rest
              refine ⟨t.text.toList ++ front, behind, t :: tokens, ?_, ?_, hend⟩
              · rw [htext, List.append_assoc, ← hrest, hcs]
              · refine .token ?_ ?_ hscans
                · rw [htext]
                  exact hspells
                · rw [htext, ← hrest]
                  exact hstop
termination_by _ cs => cs.length

/-- The reader finds the token at the front of a text. -/
theorem Spells.exists_readLexeme
    {t : Token} (hspells : Spells t.text.toList t.kind) (rest : List Char)
    (hstop : IsWord t.text.toList → StopsWord rest) :
    ∃ c cs, t.text.toList ++ rest = c :: cs ∧ Text.isBlank c = false ∧
      FieldQuery.readLexeme c cs = some ⟨t.kind, t.text.toList, rest⟩ := by
  obtain ⟨c, cs, htext, hblank⟩ := hspells.exists_cons
  rw [htext] at hspells hstop ⊢
  exact ⟨c, cs ++ rest, rfl, hblank, hspells.readLexeme hstop⟩

/-- The tokens of the front of a text are read first, where there is room for all of them. -/
theorem Scans.tokensFrom_of_le
    (limit : Nat)
    (hscans : Scans behind pos front tokens) (hroom : tokens.length ≤ room) :
    tokensFrom limit room pos (front ++ behind) =
      (tokensFrom limit (room - tokens.length) (pos + Text.byteLength front) behind).map
        (tokens ++ ·) := by
  induction hscans generalizing room with
  | nil =>
      simp only [List.nil_append, List.length_nil, Nat.sub_zero, Text.byteLength_nil,
        Nat.add_zero]
      cases tokensFrom limit room _ behind <;> rfl
  | blank hblank _ ih =>
      rw [List.cons_append, tokensFrom_blank hblank, ih hroom, Text.byteLength_cons,
        Nat.add_assoc]
  | @token t front tokens hspells hstop _ ih =>
      obtain ⟨room, rfl⟩ : ∃ room', room = room' + 1 :=
        ⟨room - 1, by simp only [List.length_cons] at hroom; omega⟩
      obtain ⟨c, cs, hcs, hblank, hread⟩ := hspells.exists_readLexeme _ hstop
      have hstep := ih (Nat.le_of_succ_le_succ hroom)
      rw [List.append_assoc, hcs, tokensFrom_lexeme hblank hread]
      simp only [String.ofList_toList]
      rw [hstep, t.stop_eq, Text.byteLength_append, Nat.add_assoc, List.length_cons,
        Nat.add_sub_add_right]
      cases tokensFrom limit (room - tokens.length) _ behind <;> rfl

/-- The first token for which there is no room is a fault. -/
theorem Scans.tokensFrom_of_lt
    (limit : Nat)
    (hscans : Scans behind pos front tokens)
    {t : Token} (ht : tokens[room]? = some t) :
    tokensFrom limit room pos (front ++ behind) =
      .error ⟨.tooManyTokens limit, .within t.span⟩ := by
  induction hscans generalizing room with
  | nil =>
      simp at ht
  | blank hblank _ ih =>
      rw [List.cons_append, tokensFrom_blank hblank, ih ht]
  | token hspells hstop _ ih =>
      obtain ⟨c, cs, hcs, hblank, hread⟩ := hspells.exists_readLexeme _ hstop
      rw [List.append_assoc, hcs]
      cases room with
      | zero =>
          obtain rfl := Option.some.inj ht
          rw [tokensFrom_full hblank hread]
          simp only [String.ofList_toList]
      | succ room =>
          rw [tokensFrom_lexeme hblank hread]
          simp only [String.ofList_toList]
          rw [ih ht]
          rfl

end Reading

section Exactness

variable {limits : Limits} {query : String} {tokens : List Token} {t : Token}

/-- Behind `n` complete tokens of a text, and before any unclosed quote, comes the token `t`. -/
def TokenBehind (n : Nat) (cs : List Char) (t : Token) : Prop :=
  ∃ front behind tokens, cs = front ++ behind ∧ IsLexing 0 front behind tokens ∧
    tokens[n]? = some t

/-- Behind `front`, which has at most `n` tokens, a quote is opened that nothing closes. -/
def QuoteLeftOpen (n : Nat) (cs front rest : List Char) : Prop :=
  cs = front ++ '"' :: rest ∧ Unclosed rest ∧
    ∃ tokens, IsLexing 0 front ('"' :: rest) tokens ∧ tokens.length ≤ n

theorem QuoteLeftOpen.mono
    {n n' : Nat} {cs front rest : List Char}
    (hopen : QuoteLeftOpen n cs front rest) (hle : n ≤ n') :
    QuoteLeftOpen n' cs front rest := by
  obtain ⟨hcs, hunclosed, tokens, hlexing, hlength⟩ := hopen
  exact ⟨hcs, hunclosed, tokens, hlexing, hlength.trans hle⟩

theorem tokensFrom_unclosed_quote
    {limit room pos : Nat} {rest : List Char} (hunclosed : Unclosed rest) :
    tokensFrom limit room pos ('"' :: rest) = .error ⟨.unterminatedQuote, .onward pos⟩ :=
  tokensFrom_unclosed (by decide) (readLexeme_eq_none_iff.2 ⟨rfl, hunclosed⟩)

theorem lex_of_isLexing
    (hlexing : IsLexing 0 query.toList [] tokens)
    (hlength : tokens.length ≤ limits.maxTokens) :
    lex limits query = .ok tokens := by
  have hread := hlexing.scans.tokensFrom_of_le limits.maxTokens hlength
  rw [List.append_nil] at hread
  rw [lex, hread, tokensFrom]
  simp [Except.map]

theorem lex_of_tokenBehind
    (ht : TokenBehind limits.maxTokens query.toList t) :
    lex limits query = .error ⟨.tooManyTokens limits.maxTokens, .within t.span⟩ := by
  obtain ⟨front, behind, tokens, hquery, hlexing, ht⟩ := ht
  rw [lex, hquery]
  exact hlexing.scans.tokensFrom_of_lt limits.maxTokens ht

theorem lex_of_quoteLeftOpen
    {front rest : List Char}
    (hopen : QuoteLeftOpen limits.maxTokens query.toList front rest) :
    lex limits query = .error ⟨.unterminatedQuote, .onward (Text.byteLength front)⟩ := by
  obtain ⟨hquery, hunclosed, tokens, hlexing, hlength⟩ := hopen
  rw [lex, hquery, hlexing.scans.tokensFrom_of_le limits.maxTokens hlength,
    tokensFrom_unclosed_quote hunclosed, Nat.zero_add]
  rfl

/-- One of three things is true of every query, and each says what the reader returns. -/
theorem lexing_cases
    (n : Nat) (cs : List Char) :
    (∃ tokens, tokens.length ≤ n ∧ IsLexing 0 cs [] tokens)
      ∨
    (∃ t, TokenBehind n cs t)
      ∨
    ∃ front rest, QuoteLeftOpen n cs front rest := by
  obtain ⟨front, behind, tokens, rfl, hscans, hend⟩ := exists_scans 0 cs
  have hlexing := hscans.isLexing
  by_cases hlength : tokens.length ≤ n
  · rcases hend with rfl | ⟨rest, rfl, hunclosed⟩
    · left
      rw [List.append_nil]
      exact ⟨tokens, hlength, hlexing⟩
    · right
      right
      exact ⟨front, rest, rfl, hunclosed, tokens, hlexing, hlength⟩
  · right
    left
    exact ⟨tokens[n], front, behind, tokens, rfl, hlexing, List.getElem?_eq_getElem _⟩

theorem lex_eq_ok_iff :
    lex limits query = .ok tokens ↔
      tokens.length ≤ limits.maxTokens ∧ IsLexing 0 query.toList [] tokens := by
  constructor
  · intro hlex
    rcases lexing_cases limits.maxTokens query.toList with
      ⟨tokens', hlength, hlexing⟩ | ⟨t, ht⟩ | ⟨front, rest, hopen⟩
    · rw [lex_of_isLexing hlexing hlength] at hlex
      obtain rfl := Except.ok.inj hlex
      exact ⟨hlength, hlexing⟩
    · rw [lex_of_tokenBehind ht] at hlex
      cases hlex
    · rw [lex_of_quoteLeftOpen hopen] at hlex
      cases hlex
  · rintro ⟨hlength, hlexing⟩
    exact lex_of_isLexing hlexing hlength

theorem lex_eq_error_iff
    {err : Located} :
    lex limits query = .error err ↔
      (∃ t, TokenBehind limits.maxTokens query.toList t ∧
        err = ⟨.tooManyTokens limits.maxTokens, .within t.span⟩)
        ∨
      ∃ front rest, QuoteLeftOpen limits.maxTokens query.toList front rest ∧
        err = ⟨.unterminatedQuote, .onward (Text.byteLength front)⟩ := by
  constructor
  · intro hlex
    rcases lexing_cases limits.maxTokens query.toList with
      ⟨tokens, hlength, hlexing⟩ | ⟨t, ht⟩ | ⟨front, rest, hopen⟩
    · rw [lex_of_isLexing hlexing hlength] at hlex
      cases hlex
    · rw [lex_of_tokenBehind ht] at hlex
      exact Or.inl ⟨t, ht, (Except.error.inj hlex).symm⟩
    · rw [lex_of_quoteLeftOpen hopen] at hlex
      exact Or.inr ⟨front, rest, hopen, (Except.error.inj hlex).symm⟩
  · rintro (⟨t, ht, rfl⟩ | ⟨front, rest, hopen, rfl⟩)
    · exact lex_of_tokenBehind ht
    · exact lex_of_quoteLeftOpen hopen

/-- A text has at most one lexing. -/
theorem IsLexing.unique
    {tokens' : List Token}
    (hlexing : IsLexing 0 query.toList [] tokens)
    (hlexing' : IsLexing 0 query.toList [] tokens') :
    tokens = tokens' := by
  let limits : Limits := { maxTokens := max tokens.length tokens'.length }
  have hlex : lex limits query = .ok tokens :=
    lex_of_isLexing hlexing (Nat.le_max_left _ _)
  have hlex' : lex limits query = .ok tokens' :=
    lex_of_isLexing hlexing' (Nat.le_max_right _ _)
  rw [hlex] at hlex'
  exact Except.ok.inj hlex'

/-- The fragment of a fault about a token is the token's text. -/
theorem Token.Between.toError
    {before after : List Char} (hbetween : t.Between 0 query.toList before after)
    (fault : Fault) :
    Located.toError query ⟨fault, .within t.span⟩ =
      ⟨fault.kind, fault.message, t.text, t.start, query⟩ := by
  obtain ⟨hquery, hstart⟩ := hbetween
  have hslice : Text.slice query.toList t.start t.stop = t.text.toList := by
    rw [t.stop_eq, hstart, Nat.zero_add, hquery]
    exact Text.slice_append before t.text.toList after
  simp [Located.toError, Located.fragment, Located.position, span, hslice]

/-- The fragment of a fault about all that follows a place is what follows it. -/
theorem toError_onward
    {before rest : List Char} (hquery : query.toList = before ++ rest) (fault : Fault) :
    Located.toError query ⟨fault, .onward (Text.byteLength before)⟩ =
      ⟨fault.kind, fault.message, String.ofList rest, Text.byteLength before, query⟩ := by
  have hslice :
      Text.slice query.toList (Text.byteLength before) (Text.byteLength query.toList) = rest := by
    have hseams := Text.slice_append before rest []
    rw [List.append_nil, ← Text.byteLength_append, ← hquery] at hseams
    exact hseams
  simp [Located.toError, Located.fragment, Located.position, hslice]

theorem TokenBehind.toError
    {n : Nat} (ht : TokenBehind n query.toList t) (fault : Fault) :
    Located.toError query ⟨fault, .within t.span⟩ =
      ⟨fault.kind, fault.message, t.text, t.start, query⟩ := by
  obtain ⟨front, behind, tokens, hquery, hlexing, ht⟩ := ht
  obtain ⟨before, after, hfront, hstart⟩ :=
    hlexing.placed t (List.mem_of_getElem? ht)
  have hbetween : t.Between 0 query.toList before (after ++ behind) := by
    refine ⟨?_, hstart⟩
    rw [hquery, hfront]
    simp
  exact hbetween.toError fault

theorem tokenize_eq_error_iff
    {err : SyntaxError} :
    tokenize limits query = .error err ↔
      ∃ located, lex limits query = .error located ∧ located.toError query = err := by
  unfold tokenize
  cases lex limits query <;> simp [Except.mapError]

/--
**Reading tokens is exact.**  It returns the one lexing of the query if that has no
more tokens than allowed.  It fails at the first token too many, if so many tokens
are complete before any unclosed quote, and otherwise at the unclosed quote.
-/
theorem tokenize_exact
    (limits : Limits) (query : String) :
    (∀ tokens, tokenize limits query = .ok tokens ↔
      tokens.length ≤ limits.maxTokens ∧ IsLexing 0 query.toList [] tokens)
      ∧
    (∀ tokens tokens', IsLexing 0 query.toList [] tokens →
      IsLexing 0 query.toList [] tokens' → tokens = tokens')
      ∧
    (∀ err, tokenize limits query = .error err ↔
      (∃ t, TokenBehind limits.maxTokens query.toList t ∧
        err = ⟨.limitExceeded, "query has more than " ++ limits.maxTokens.repr ++ " tokens",
          t.text, t.start, query⟩)
        ∨
      ∃ front rest, QuoteLeftOpen limits.maxTokens query.toList front rest ∧
        err = ⟨.unterminatedQuote, "unterminated quoted literal",
          String.ofList ('"' :: rest), Text.byteLength front, query⟩) := by
  refine ⟨fun tokens => ?_, fun _ _ => IsLexing.unique, fun err => ?_⟩
  · rw [tokenize_eq_ok_iff, lex_eq_ok_iff]
  · rw [tokenize_eq_error_iff]
    simp only [lex_eq_error_iff]
    constructor
    · rintro ⟨located, ⟨t, ht, rfl⟩ | ⟨front, rest, hopen, rfl⟩, rfl⟩
      · exact Or.inl ⟨t, ht, ht.toError _⟩
      · exact Or.inr ⟨front, rest, hopen, toError_onward hopen.1 _⟩
    · rintro (⟨t, ht, rfl⟩ | ⟨front, rest, hopen, rfl⟩)
      · exact ⟨_, Or.inl ⟨t, ht, rfl⟩, ht.toError _⟩
      · exact ⟨_, Or.inr ⟨front, rest, hopen, rfl⟩, toError_onward hopen.1 _⟩

/-- With room for one token the separator is blamed, and not the quote behind it. -/
example :
    lex { maxTokens := 1 } "a|\"b" = .error ⟨.tooManyTokens 1, .within ⟨1, 2⟩⟩ := by
  cbv

end Exactness

end FieldQuery
