import Mathlib.Logic.Relation
import FieldQuery.Proofs.AlikeTokens
import FieldQuery.Proofs.TokenSequence

/-!
# The layout of a query

What is read from a query depends on its tokens, not on how they are laid out.  The
layout of a text is changed by three kinds of edits: white space is put where no token
is, white space is taken from where no token is and where it is not all that keeps two
words apart, and a group separator is written as the other one.  Around the place of an
edit the text is lexed as before, so the edited text has the same tokens at other
places, and these are read the same.

**Results.**

* `IsLexing.split`, `IsLexing.split_token`: a text is lexed in two parts where no token is
  cut, and around a token;
* `IsLexing.exists_shift`: the tokens of a text that is moved;
* `Relaid.exists_alike`, `exists_alike_of_relaid`: what one edit and any number of them
  do to the tokens;
* `readAlike_of_isLexing`: what alike tokens do to what is read;
* `parse_depends_on_tokens`: what is read depends on the tokens.
-/

namespace FieldQuery

section Parts

variable {pos : Nat} {front behind : List Char} {tokens : List Token}

/-- No token is cut at a byte. -/
def Seam (tokens : List Token) (n : Nat) : Prop :=
  ∀ t ∈ tokens, t.stop ≤ n ∨ n ≤ t.start

theorem exists_append_of_seam
    {n : Nat} (hordered : tokens.Pairwise fun t u => t.stop ≤ u.start) (hseam : Seam tokens n) :
    ∃ earlier later, tokens = earlier ++ later ∧
      (∀ t ∈ earlier, t.stop ≤ n) ∧ ∀ t ∈ later, n ≤ t.start := by
  induction tokens with
  | nil =>
      exact ⟨[], [], rfl, by simp, by simp⟩
  | cons t tokens ih =>
      obtain ⟨hfirst, hrest⟩ := List.pairwise_cons.1 hordered
      rcases hseam t (by simp) with hstop | hstart
      · obtain ⟨earlier, later, rfl, hearlier, hlater⟩ :=
          ih hrest fun u hu => hseam u (by simp [hu])
        exact ⟨t :: earlier, later, rfl, List.forall_mem_cons.2 ⟨hstop, hearlier⟩, hlater⟩
      · refine ⟨[], t :: tokens, rfl, by simp, List.forall_mem_cons.2 ⟨hstart, ?_⟩⟩
        intro u hu
        have hbehind := hfirst u hu
        rw [t.stop_eq] at hbehind
        omega

/-- Where no token is cut, a text is lexed in two parts. -/
theorem IsLexing.split
    {first : List Char} (hlexing : IsLexing pos (first ++ front) behind tokens)
    (hseam : Seam tokens (pos + Text.byteLength first)) :
    ∃ earlier later, tokens = earlier ++ later ∧
      IsLexing pos first (front ++ behind) earlier ∧
      IsLexing (pos + Text.byteLength first) front behind later := by
  obtain ⟨earlier, later, rfl, hstop, hstart⟩ := exists_append_of_seam hlexing.ordered hseam
  exact ⟨earlier, later, rfl, hlexing.take earlier hstop hstart,
    hlexing.drop earlier hstop hstart⟩

/-- Around one of its tokens, a text is lexed in two parts. -/
theorem IsLexing.split_token
    {t : Token} {rest : List Char}
    (hlexing : IsLexing pos (front ++ (t.text.toList ++ behind)) rest tokens)
    (ht : t ∈ tokens) (hstart : t.start = pos + Text.byteLength front) :
    ∃ earlier later, tokens = earlier ++ t :: later ∧
      IsLexing pos front (t.text.toList ++ behind ++ rest) earlier ∧
      IsLexing t.stop behind rest later := by
  obtain ⟨earlier, later, rfl⟩ := List.append_of_mem ht
  obtain ⟨_, hordered, hapart⟩ := List.pairwise_append.1 hlexing.ordered
  have hstop : ∀ u ∈ earlier, u.stop ≤ pos + Text.byteLength front := by
    intro u hu
    rw [← hstart]
    exact hapart u hu t (by simp)
  have hbehind : ∀ u ∈ t :: later, pos + Text.byteLength front ≤ u.start := by
    intro u hu
    rcases List.mem_cons.1 hu with rfl | hu
    · exact hstart.ge
    · have hle := List.rel_of_pairwise_cons hordered hu
      rw [t.stop_eq] at hle
      omega
  have hdrop := hlexing.drop earlier hstop hbehind
  rw [← hstart] at hdrop
  exact ⟨earlier, later, rfl, hlexing.take earlier hstop hbehind, hdrop.of_token_append.2⟩

/-- White space does not go on with a word. -/
theorem stopsWord_blank_append
    {gap : List Char} (hgap : ∀ c ∈ gap, Text.isBlank c = true) (hstop : StopsWord behind) :
    StopsWord (gap ++ behind) := by
  cases gap with
  | nil =>
      exact hstop
  | cons c gap =>
      simp [StopsWord, endsWord, hgap c (by simp)]

/-- White space by itself has no tokens. -/
theorem isLexing_of_blank
    {gap : List Char} (hgap : ∀ c ∈ gap, Text.isBlank c = true) :
    IsLexing pos gap behind [] := by
  induction gap generalizing pos with
  | nil =>
      exact .nil
  | cons c gap ih =>
      exact IsLexing.append (.blank_char (hgap c (by simp)))
        (ih fun d hd => hgap d (by simp [hd]))

/-- The tokens of a text with white space before it are behind that. -/
theorem IsLexing.of_blank_append
    {gap : List Char} (hgap : ∀ c ∈ gap, Text.isBlank c = true)
    (hlexing : IsLexing pos (gap ++ front) behind tokens) :
    IsLexing (pos + Text.byteLength gap) front behind tokens := by
  induction gap generalizing pos with
  | nil =>
      exact hlexing
  | cons c gap ih =>
      have hrest := ih (fun d hd => hgap d (by simp [hd]))
        (hlexing.of_blank_cons (hgap c (by simp)))
      rw [Text.byteLength_cons, Text.byteLength_nil, Nat.add_zero, Nat.add_assoc] at hrest
      rwa [Text.byteLength_cons]

/-- The same text has alike tokens wherever it begins. -/
theorem IsLexing.exists_shift
    (hlexing : IsLexing pos front behind tokens) (pos' : Nat) :
    ∃ tokens', IsLexing pos' front behind tokens' ∧ AlikeTokens tokens tokens' := by
  simp only [isLexing_iff_scans] at hlexing ⊢
  induction hlexing generalizing pos' with
  | nil =>
      exact ⟨[], .nil, .nil⟩
  | @blank _ c _ _ hblank _ ih =>
      obtain ⟨tokens', hscans, halike⟩ := ih (pos' + c.utf8Size)
      exact ⟨tokens', .blank hblank hscans, halike⟩
  | @token t front tokens hspells hstop _ ih =>
      let t' : Token := { t with start := pos' }
      obtain ⟨tokens', hscans, halike⟩ := ih t'.stop
      exact ⟨t' :: tokens', .token (t := t') hspells hstop hscans,
        .cons ⟨rfl, fun _ _ => rfl⟩ halike⟩

/-- A mark by itself is one token. -/
theorem isLexing_mark
    {c : Char} {kind : TokenKind} (hmark : (c, kind) ∈ marks) :
    IsLexing pos [c] behind [⟨kind, String.ofList [c], pos⟩] := by
  let t : Token := ⟨kind, String.ofList [c], pos⟩
  have htext : t.text.toList = [c] := String.toList_ofList
  have hspells : Spells t.text.toList t.kind := by
    rw [htext]
    exact .mark hmark
  have hstop : IsWord t.text.toList → StopsWord behind := by
    rw [htext]
    intro hword
    exact absurd (mem_delimiters_of_mark hmark) (hword.2 c (by simp)).2
  have hsingle := IsLexing.single hspells hstop
  rwa [htext] at hsingle

/-- What follows a text matters only to a word at the end of it. -/
theorem IsLexing.of_stopsWord
    {behind' : List Char} (hlexing : IsLexing pos front behind tokens)
    (hstops : ∀ t ∈ tokens, IsWord t.text.toList → t.stop = pos + Text.byteLength front →
      StopsWord behind → StopsWord behind') :
    IsLexing pos front behind' tokens where
  nonempty := hlexing.nonempty
  ordered := hlexing.ordered
  placed := hlexing.placed
  blank := hlexing.blank
  spelt := hlexing.spelt
  maximal := by
    intro t ht hword before after hbetween
    have hstop := hlexing.maximal t ht hword before after hbetween
    cases after with
    | cons c after =>
        exact hstop
    | nil =>
        refine hstops t ht hword ?_ hstop
        obtain ⟨hfront, hstart⟩ := hbetween
        rw [t.stop_eq, hstart, hfront, List.append_nil, Text.byteLength_append]
        omega

/-- A token that is no word ends every word before it. -/
theorem Spells.stopsWord
    {text : List Char} {kind : TokenKind} (hspells : Spells text kind) (hword : ¬ IsWord text)
    (rest : List Char) :
    StopsWord (text ++ rest) := by
  cases hspells with
  | mark hmark =>
      exact stopsWord_delimiter (mem_delimiters_of_mark hmark) rest
  | quoted _ =>
      exact stopsWord_delimiter (by simp [delimiters]) _
  | keyword hword' _ =>
      exact absurd hword' hword
  | bare hword' _ =>
      exact absurd hword' hword

/-- A text that does not begin with a word ends every word before it. -/
theorem IsLexing.stopsWord
    (hlexing : IsLexing pos front [] tokens)
    (hfirst : ∀ t ∈ tokens, t.start = pos → ¬ IsWord t.text.toList) :
    StopsWord front := by
  cases front with
  | nil =>
      exact stopsWord_nil
  | cons c front =>
      cases hblank : Text.isBlank c with
      | true =>
          simp [StopsWord, endsWord, hblank]
      | false =>
          obtain ⟨t, ts, rest, rfl, hstart, hfront⟩ := hlexing.exists_first hblank
          rw [hfront]
          exact (hlexing.spelt t (by simp)).stopsWord (hfirst t (by simp) hstart) rest

end Parts

section Edits

variable {cs cs' : List Char}

/-- One text is got from another by one edit of its layout. -/
inductive Relaid : List Char → List Char → Prop
  /-- White space is put where no token is cut. -/
  | insert
      {front gap behind : List Char} {tokens : List Token}
      (hlexing : IsLexing 0 (front ++ behind) [] tokens)
      (hseam : Seam tokens (Text.byteLength front))
      (hgap : ∀ c ∈ gap, Text.isBlank c = true) :
      Relaid (front ++ behind) (front ++ (gap ++ behind))
  /-- White space is taken from where no token is cut and where no words are joined. -/
  | remove
      {front gap behind : List Char} {tokens : List Token}
      (hlexing : IsLexing 0 (front ++ (gap ++ behind)) [] tokens)
      (hseam : Seam tokens (Text.byteLength front))
      (hgap : ∀ c ∈ gap, Text.isBlank c = true)
      (hapart : ∀ t ∈ tokens, ∀ u ∈ tokens,
        t.stop = Text.byteLength front → u.start = Text.byteLength (front ++ gap) →
          ¬ (IsWord t.text.toList ∧ IsWord u.text.toList)) :
      Relaid (front ++ (gap ++ behind)) (front ++ behind)
  /-- A group separator is written in one of its ways. -/
  | respell
      {front behind : List Char} {t : Token} {tokens : List Token} {c : Char}
      (hlexing : IsLexing 0 (front ++ (t.text.toList ++ behind)) [] tokens)
      (ht : t ∈ tokens)
      (hstart : t.start = Text.byteLength front)
      (hkind : t.kind = .groupSep)
      (hc : c = '‖' ∨ c = ',') :
      Relaid (front ++ (t.text.toList ++ behind)) (front ++ c :: behind)

/-- Between the lexings of two parts of a text there may be that of a third. -/
theorem exists_lexing_around
    {front mid behind : List Char} {pos : Nat} {earlier middle later : List Token}
    (hearlier : IsLexing 0 front (mid ++ behind) earlier)
    (hmiddle : IsLexing (Text.byteLength front) mid behind middle)
    (hlater : IsLexing pos behind [] later) :
    ∃ later', AlikeTokens later later' ∧
      IsLexing 0 (front ++ (mid ++ behind)) [] (earlier ++ (middle ++ later')) := by
  obtain ⟨later', hshifted, halike⟩ :=
    hlater.exists_shift (Text.byteLength front + Text.byteLength mid)
  rw [← Nat.zero_add (Text.byteLength front)] at hmiddle hshifted
  rw [← List.append_nil behind] at hmiddle
  rw [← List.append_nil (mid ++ behind)] at hearlier
  exact ⟨later', halike, hearlier.append (hmiddle.append hshifted)⟩

/-- An edit of the layout keeps the tokens but for their places. -/
theorem Relaid.exists_alike
    (hrelaid : Relaid cs cs') :
    ∃ tokens tokens', IsLexing 0 cs [] tokens ∧ IsLexing 0 cs' [] tokens' ∧
      AlikeTokens tokens tokens' := by
  cases hrelaid with
  | @insert front gap behind tokens hlexing hseam hgap =>
      rw [← Nat.zero_add (Text.byteLength front)] at hseam
      obtain ⟨earlier, later, rfl, hearlier, hlater⟩ := hlexing.split hseam
      rw [List.append_nil] at hearlier
      have hearlier' : IsLexing 0 front (gap ++ behind) earlier :=
        hearlier.of_stopsWord fun _ _ _ _ hstop => stopsWord_blank_append hgap hstop
      obtain ⟨later', halike, hlexing'⟩ :=
        exists_lexing_around hearlier' (isLexing_of_blank hgap) hlater
      exact ⟨_, _, hlexing, hlexing', List.rel_append (AlikeTokens.refl earlier) halike⟩
  | @remove front gap behind tokens hlexing hseam hgap hapart =>
      rw [← Nat.zero_add (Text.byteLength front)] at hseam
      obtain ⟨earlier, later, rfl, hearlier, hlater⟩ := hlexing.split hseam
      have hbehind := hlater.of_blank_append hgap
      have hearlier' : IsLexing 0 front behind earlier := by
        refine hearlier.of_stopsWord fun t ht hword hstop _ => ?_
        refine hbehind.stopsWord fun u hu hstart hword' => ?_
        refine hapart t (by simp [ht]) u (by simp [hu]) (by omega) ?_ ⟨hword, hword'⟩
        rw [hstart, Text.byteLength_append]
        omega
      have hnothing : IsLexing (Text.byteLength front) [] behind [] := .nil
      obtain ⟨later', halike, hlexing'⟩ := exists_lexing_around hearlier' hnothing hbehind
      exact ⟨_, _, hlexing, hlexing', List.rel_append (AlikeTokens.refl earlier) halike⟩
  | @respell front behind t tokens c hlexing ht hstart hkind hc =>
      obtain ⟨earlier, later, rfl, hearlier, hlater⟩ := hlexing.split_token ht (by omega)
      have hmark : (c, TokenKind.groupSep) ∈ marks := by
        rcases hc with rfl | rfl <;> simp [marks]
      have hearlier' : IsLexing 0 front (c :: behind) earlier := by
        refine hearlier.of_stopsWord fun _ _ _ _ _ => ?_
        exact stopsWord_delimiter (mem_delimiters_of_mark hmark) behind
      obtain ⟨later', halike, hlexing'⟩ :=
        exists_lexing_around hearlier' (isLexing_mark hmark) hlater
      have ht' : t.Alike ⟨.groupSep, String.ofList [c], Text.byteLength front⟩ := by
        refine ⟨hkind, fun op hop => ?_⟩
        rw [hkind] at hop
        cases hop
      exact ⟨_, _, hlexing, hlexing',
        List.rel_append (AlikeTokens.refl earlier) (.cons ht' halike)⟩

/-- Any number of edits of the layout keep the tokens but for their places. -/
theorem exists_alike_of_relaid
    (hrelaid : Relation.ReflTransGen Relaid cs cs') {tokens : List Token}
    (hlexing : IsLexing 0 cs [] tokens) :
    ∃ tokens', IsLexing 0 cs' [] tokens' ∧ AlikeTokens tokens tokens' := by
  induction hrelaid with
  | refl =>
      exact ⟨tokens, hlexing, .refl tokens⟩
  | @tail cs _ _ hstep ih =>
      obtain ⟨tokens', hlexing', halike⟩ := ih
      obtain ⟨us, us', hus, hus', halike'⟩ := hstep.exists_alike
      rw [← String.toList_ofList (l := cs)] at hlexing' hus
      obtain rfl := hlexing'.unique hus
      exact ⟨us', hus', halike.trans halike'⟩

end Edits

section Queries

variable {limits : Limits} {query query' : String} {tokens tokens' : List Token}

/-- Two queries are read as one expression, or with errors of one kind and one message. -/
def ReadAlike (limits : Limits) (query query' : String) : Prop :=
  (∃ e, parse limits query = .ok e ∧ parse limits query' = .ok e) ∨
    ∃ err err', parse limits query = .error err ∧ parse limits query' = .error err' ∧
      err.kind = err'.kind ∧ err.message = err'.message

theorem ReadAlike.refl
    (limits : Limits) (query : String) :
    ReadAlike limits query query := by
  cases hparse : parse limits query with
  | ok e =>
      exact Or.inl ⟨e, hparse, hparse⟩
  | error err =>
      exact Or.inr ⟨err, err, hparse, hparse, rfl, rfl⟩

/-- Readings that end with the same fault, or return the same, are alike for the user. -/
theorem readAlike_of_read
    (hread : (∃ err err', read limits query = .error err ∧ read limits query' = .error err' ∧
      err.fault = err'.fault) ∨
      ∃ e, read limits query = .ok e ∧ read limits query' = .ok e) :
    ReadAlike limits query query' := by
  unfold ReadAlike parse
  rcases hread with ⟨err, err', hr, hr', hfault⟩ | ⟨e, hr, hr'⟩
  · rw [hr, hr']
    exact Or.inr ⟨_, _, rfl, rfl, congrArg Fault.kind hfault, congrArg Fault.message hfault⟩
  · rw [hr, hr']
    exact Or.inl ⟨e, rfl, rfl⟩

/-- Queries with alike tokens are read alike under all limits. -/
theorem readAlike_of_isLexing
    (hlexing : IsLexing 0 query.toList [] tokens)
    (hlexing' : IsLexing 0 query'.toList [] tokens')
    (halike : AlikeTokens tokens tokens') :
    ReadAlike limits query query' := by
  have hlength := halike.length_eq
  refine readAlike_of_read ?_
  unfold read
  by_cases hle : tokens.length ≤ limits.maxTokens
  · rw [lex_of_isLexing hlexing hle, lex_of_isLexing hlexing' (hlength ▸ hle)]
    exact readTokens_alike limits.maxDepth halike
  · -- both queries have a token too many, at the same number
    have hbehind : ∀ {query : String} {tokens : List Token},
        IsLexing 0 query.toList [] tokens → ¬ tokens.length ≤ limits.maxTokens →
          ∃ t, TokenBehind limits.maxTokens query.toList t := by
      intro query tokens hlexing hle
      exact ⟨tokens[limits.maxTokens], _, [], tokens, (List.append_nil _).symm, hlexing,
        List.getElem?_eq_getElem (by omega)⟩
    obtain ⟨t, ht⟩ := hbehind hlexing hle
    obtain ⟨t', ht'⟩ := hbehind hlexing' (hlength ▸ hle)
    rw [lex_of_tokenBehind ht, lex_of_tokenBehind ht']
    exact Or.inl ⟨_, _, rfl, rfl, rfl⟩

/--
**What is read from a query depends on its tokens, not on their layout.**  Two queries
that have alike tokens, under any limits, are read as the same expression, or with errors
of the same kind and message, under all limits.  In particular this is so where one query
is got from the other by edits of the layout; then the tokens of both are alike.
-/
theorem parse_depends_on_tokens
    (query query' : String) :
    (∀ wide wide' tokens tokens',
      tokenize wide query = .ok tokens → tokenize wide' query' = .ok tokens' →
      AlikeTokens tokens tokens' →
      ∀ limits, ReadAlike limits query query') ∧
    (Relation.ReflTransGen Relaid query.toList query'.toList →
      (∀ limits tokens, tokenize limits query = .ok tokens →
        ∃ tokens', tokenize limits query' = .ok tokens' ∧ AlikeTokens tokens tokens') ∧
      ∀ limits, ReadAlike limits query query') := by
  simp only [tokenize_eq_ok_iff, lex_eq_ok_iff]
  refine ⟨?_, fun hrelaid => ⟨?_, fun limits => ?_⟩⟩
  · rintro _ _ tokens tokens' ⟨_, hlexing⟩ ⟨_, hlexing'⟩ halike limits
    exact readAlike_of_isLexing hlexing hlexing' halike
  · rintro limits tokens ⟨hlength, hlexing⟩
    obtain ⟨tokens', hlexing', halike⟩ := exists_alike_of_relaid hrelaid hlexing
    exact ⟨tokens', ⟨halike.length_eq ▸ hlength, hlexing'⟩, halike⟩
  · rcases hrelaid.cases_head with hsame | ⟨_, hstep, _⟩
    · rw [String.toList_inj.1 hsame]
      exact .refl limits query'
    · -- a text that was edited has tokens
      obtain ⟨tokens, _, hlexing, _⟩ := hstep.exists_alike
      obtain ⟨tokens', hlexing', halike⟩ := exists_alike_of_relaid hrelaid hlexing
      exact readAlike_of_isLexing hlexing hlexing' halike

/-- A blank behind a bar is taken away, and nothing else is read under any limits. -/
theorem parse_depends_on_tokens_blank :
    ∃ tokens tokens',
      tokenize {} "exists| hue" = .ok tokens ∧
      tokenize {} "exists|hue" = .ok tokens' ∧
      tokens ≠ tokens' ∧
      Relation.ReflTransGen Relaid "exists| hue".toList "exists|hue".toList ∧
      AlikeTokens tokens tokens' ∧
      ∀ limits, ReadAlike limits "exists| hue" "exists|hue" := by
  have htokens :
      tokenize {} "exists| hue" =
        .ok [⟨.operator (.presence .present), "exists", 0⟩, ⟨.fieldSep, "|", 6⟩,
          ⟨.literal (.bare "hue"), "hue", 8⟩] := by
    cbv
  have htokens' :
      tokenize {} "exists|hue" =
        .ok [⟨.operator (.presence .present), "exists", 0⟩, ⟨.fieldSep, "|", 6⟩,
          ⟨.literal (.bare "hue"), "hue", 7⟩] := by
    cbv
  have hlexing := (lex_eq_ok_iff.1 (tokenize_eq_ok_iff.1 htokens)).2
  have hrelaid : Relaid "exists| hue".toList "exists|hue".toList := by
    refine @Relaid.remove "exists|".toList [' '] "hue".toList _ hlexing ?_ ?_ ?_
    · unfold Seam
      decide
    · intro c hc
      rw [List.mem_singleton.1 hc]
      decide
    · -- only the bar ends at the blank, and it is no word
      intro t ht u _ hstop _ hwords
      have hbar : t.text = "|" := by
        clear hwords
        revert t
        decide
      have hdelimiter := (hwords.1.2 '|' (by simp [hbar])).2
      exact hdelimiter (by simp [delimiters])
  obtain ⟨hkept, halike⟩ :=
    (parse_depends_on_tokens "exists| hue" "exists|hue").2 (.single hrelaid)
  obtain ⟨tokens', hread, hts⟩ := hkept {} _ htokens
  obtain rfl := Except.ok.inj (htokens'.symm.trans hread)
  exact ⟨_, _, htokens, htokens', by decide, .single hrelaid, hts, halike⟩

/-- An operator that stands for a value is a word, so its spelling is part of what is read. -/
example :
    (parse {} "exists|and").map Expr.canonical = .ok "exists|and" ∧
      (parse {} "exists|AND").map Expr.canonical = .ok "exists|AND" := by
  constructor <;> cbv

end Queries

end FieldQuery
