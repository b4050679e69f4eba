import FieldQuery.Query.Lexing
import FieldQuery.Proofs.Grammar

/-!
# The spelling of literals

Which literals the tokens of a text can stand for, and how the canonical text of
such a literal is read back, whatever follows it.

**Results.**

* `tokensFrom_spelt`: tokens stand for literals that a query can spell, and there
  are no more of them than allowed;
* `readLexeme_mark`, `readLexeme_word`, `readLexeme_quoted`: how the canonical
  texts of delimiters, words and quoted literals are read.
-/

namespace FieldQuery

/-- The characters other than white space that no word holds. -/
def delimiters : List Char :=
  ['(', ')', '|', '‖', ',', '"']

/--
A literal as a query can spell it.  A quoted one is a text, whatever its
characters are.  A bare one is a word, typed by its spelling.
-/
structure Literal.Spelt (l : Literal) : Prop where
  quoted : l.quoted = true → l.value = .string l.raw
  bare : l.quoted = false →
    l.raw ≠ "" ∧ l.value = .ofWord l.raw ∧
      ∀ c ∈ l.raw.toList, Text.isBlank c = false ∧ c ∉ delimiters

theorem endsWord_eq_false_iff (c : Char) :
    endsWord c = false ↔ Text.isBlank c = false ∧ c ∉ delimiters := by
  simp [endsWord, delimiters, and_assoc]

theorem isBlank_delimiter
    {c : Char} (hc : c ∈ delimiters) :
    Text.isBlank c = false := by
  simp only [delimiters, List.mem_cons, List.not_mem_nil, or_false] at hc
  rcases hc with rfl | rfl | rfl | rfl | rfl | rfl <;> decide

theorem Literal.Spelt.eq_ofQuoted
    {l : Literal} (hl : l.Spelt) (hquoted : l.quoted = true) :
    l = .ofQuoted l.raw := by
  obtain ⟨raw, value, quoted⟩ := l
  obtain rfl : value = .string raw := hl.quoted hquoted
  obtain rfl : quoted = true := hquoted
  rfl

theorem Literal.Spelt.eq_bare
    {l : Literal} (hl : l.Spelt) (hbare : l.quoted = false) :
    l = .bare l.raw := by
  obtain ⟨raw, value, quoted⟩ := l
  obtain rfl : value = .ofWord raw := (hl.bare hbare).2.1
  obtain rfl : quoted = false := hbare
  rfl

theorem Literal.spelt_ofQuoted (raw : String) :
    (Literal.ofQuoted raw).Spelt := by
  constructor
  · intro _
    rfl
  · intro hbare
    cases hbare

theorem Literal.spelt_bare
    {word : List Char} (hne : word ≠ [])
    (hword : ∀ c ∈ word, endsWord c = false) :
    (Literal.bare (String.ofList word)).Spelt := by
  constructor
  · intro hquoted
    cases hquoted
  · intro _
    refine ⟨?_, rfl, ?_⟩
    · simpa [Literal.bare] using hne
    · intro c hc
      rw [← endsWord_eq_false_iff]
      exact hword c (by simpa [Literal.bare] using hc)

/-- Every keyword is a word, and it names its operator. -/
theorem Operator.name_isWord (op : Operator) :
    op.name.toList ≠ [] ∧ (∀ c ∈ op.name.toList, endsWord c = false) ∧
      ofName? op.name = some op := by
  have hcatalog : ∀ op ∈ all,
      op.name.toList ≠ [] ∧ (op.name.toList.all fun c => !endsWord c) ∧
        ofName? op.name = some op := by
    decide
  simpa using hcatalog op op.mem_all

section Lexemes

/-- The characters that are tokens by themselves, with what they mean. -/
def marks : List (Char × TokenKind) :=
  [('(', .openParen), (')', .closeParen), ('|', .fieldSep), ('‖', .groupSep),
    (',', .groupSep)]

/-- The token at the front of a text: a mark, a quoted literal, or a word. -/
theorem readLexeme_cases
    {c : Char} {cs : List Char} {x : Lexeme}
    (hread : readLexeme c cs = some x) :
    (∃ kind, (c, kind) ∈ marks ∧ x = ⟨kind, [c], cs⟩)
    ∨
    (c = '"' ∧ ∃ value text rest, readToQuote cs = some (value, text, rest) ∧
      x = ⟨.literal (.ofQuoted (String.ofList value)), c :: text, rest⟩)
    ∨
    (c ∉ delimiters ∧
      x = ⟨wordKind (String.ofList (c :: cs.takeWhile (! endsWord ·))),
        c :: cs.takeWhile (! endsWord ·), cs.dropWhile (! endsWord ·)⟩) := by
  unfold readLexeme at hread
  split at hread
  · rename_i hc
    subst hc
    cases hread
    exact Or.inl ⟨_, by simp [marks], rfl⟩
  split at hread
  · rename_i hc
    subst hc
    cases hread
    exact Or.inl ⟨_, by simp [marks], rfl⟩
  split at hread
  · rename_i hc
    subst hc
    cases hread
    exact Or.inl ⟨_, by simp [marks], rfl⟩
  split at hread
  · rename_i hc
    rcases hc with rfl | rfl <;> cases hread <;>
      exact Or.inl ⟨_, by simp [marks], rfl⟩
  split at hread
  · rename_i hc
    subst hc
    obtain ⟨⟨value, text, rest⟩, hquote, rfl⟩ := Option.map_eq_some_iff.1 hread
    exact Or.inr (Or.inl ⟨rfl, value, text, rest, hquote, rfl⟩)
  · cases hread
    refine Or.inr (Or.inr ⟨?_, rfl⟩)
    simp_all [delimiters]

theorem readLexeme_mark
    {c : Char} {kind : TokenKind} (hmark : (c, kind) ∈ marks) (cs : List Char) :
    readLexeme c cs = some ⟨kind, [c], cs⟩ := by
  simp only [marks, List.mem_cons, Prod.mk.injEq, List.not_mem_nil, or_false] at hmark
  rcases hmark with ⟨rfl, rfl⟩ | ⟨rfl, rfl⟩ | ⟨rfl, rfl⟩ | ⟨rfl, rfl⟩ | ⟨rfl, rfl⟩ <;>
    simp [readLexeme]

theorem mem_delimiters_of_mark
    {c : Char} {kind : TokenKind} (hmark : (c, kind) ∈ marks) :
    c ∈ delimiters := by
  simp only [marks, List.mem_cons, Prod.mk.injEq, List.not_mem_nil, or_false] at hmark
  rcases hmark with ⟨rfl, _⟩ | ⟨rfl, _⟩ | ⟨rfl, _⟩ | ⟨rfl, _⟩ | ⟨rfl, _⟩ <;>
    simp [delimiters]

/-- Whether a word before this text ends there. -/
def StopsWord : List Char → Prop
  | [] => True
  | c :: _ => endsWord c = true

theorem stopsWord_nil : StopsWord [] :=
  True.intro

theorem stopsWord_delimiter
    {c : Char} (hc : c ∈ delimiters) (cs : List Char) :
    StopsWord (c :: cs) := by
  cases hends : endsWord c with
  | true =>
      exact hends
  | false =>
      exact absurd hc ((endsWord_eq_false_iff c).1 hends).2

/-- A word is read up to its end. -/
theorem readLexeme_word
    {c : Char} {word cs : List Char}
    (hword : ∀ d ∈ c :: word, endsWord d = false) (hstop : StopsWord cs) :
    readLexeme c (word ++ cs) =
      some ⟨wordKind (String.ofList (c :: word)), c :: word, cs⟩ := by
  have hc := (endsWord_eq_false_iff c).1 (hword c (by simp))
  have hall : ∀ d ∈ word, (! endsWord d) = true := by
    intro d hd
    simp [hword d (by simp [hd])]
  have htake : (word ++ cs).takeWhile (! endsWord ·) = word := by
    rw [List.takeWhile_append_of_pos hall]
    cases cs with
    | nil =>
        simp
    | cons d ds =>
        have hd : endsWord d = true := hstop
        simp [hd]
  have hdrop : (word ++ cs).dropWhile (! endsWord ·) = cs := by
    rw [List.dropWhile_append_of_pos hall]
    cases cs with
    | nil =>
        simp
    | cons d ds =>
        have hd : endsWord d = true := hstop
        simp [hd]
  simp only [delimiters, List.mem_cons, List.not_mem_nil, or_false, not_or] at hc
  simp [readLexeme, hc, htake, hdrop]

/-- The canonical text of a quoted literal is read up to its closing quote. -/
theorem readToQuote_escape
    (raw cs : List Char) :
    readToQuote (raw.flatMap Literal.escapeChar ++ '"' :: cs) =
      some (raw, raw.flatMap Literal.escapeChar ++ ['"'], cs) := by
  induction raw with
  | nil =>
      simp [readToQuote]
  | cons c raw ih =>
      by_cases hbackslash : c = '\\'
      · subst hbackslash
        simp [Literal.escapeChar, readToQuote, ih]
      · by_cases hquote : c = '"'
        · subst hquote
          simp [Literal.escapeChar, readToQuote, ih]
        · simp [Literal.escapeChar, hbackslash, hquote, readToQuote, ih]

theorem readLexeme_quoted
    (raw cs : List Char) :
    readLexeme '"' (raw.flatMap Literal.escapeChar ++ '"' :: cs) =
      some ⟨.literal (.ofQuoted (String.ofList raw)),
        '"' :: (raw.flatMap Literal.escapeChar ++ ['"']), cs⟩ := by
  simp [readLexeme, readToQuote_escape]

end Lexemes

section Steps

variable {limit room pos : Nat} {c : Char} {cs : List Char}

/-- White space is skipped. -/
theorem tokensFrom_blank
    (hblank : Text.isBlank c = true) :
    tokensFrom limit room pos (c :: cs) =
      tokensFrom limit room (pos + c.utf8Size) cs := by
  rw [tokensFrom]
  simp [hblank]

/-- A quote that is not closed ends the reading. -/
theorem tokensFrom_unclosed
    (hblank : Text.isBlank c = false) (hx : readLexeme c cs = none) :
    tokensFrom limit room pos (c :: cs) =
      .error ⟨.unterminatedQuote, .onward pos⟩ := by
  rw [tokensFrom]
  rw [if_neg (by simp [hblank])]
  split
  · rfl
  · rename_i x hx'
    rw [hx] at hx'
    cases hx'

/-- A token for which there is no room ends the reading. -/
theorem tokensFrom_full
    {x : Lexeme} (hblank : Text.isBlank c = false)
    (hx : readLexeme c cs = some x) :
    tokensFrom limit 0 pos (c :: cs) =
      .error ⟨.tooManyTokens limit,
        .within (Token.span ⟨x.kind, String.ofList x.text, pos⟩)⟩ := by
  rw [tokensFrom]
  rw [if_neg (by simp [hblank])]
  split
  · rename_i hx'
    rw [hx] at hx'
    cases hx'
  · rename_i x' hx'
    rw [hx] at hx'
    cases hx'
    rfl

/-- A token for which there is room comes first, and the rest is read behind it. -/
theorem tokensFrom_lexeme
    {x : Lexeme} (hblank : Text.isBlank c = false)
    (hx : readLexeme c cs = some x) :
    tokensFrom limit (room + 1) pos (c :: cs) =
      (tokensFrom limit room (Token.stop ⟨x.kind, String.ofList x.text, pos⟩) x.rest).map
        (⟨x.kind, String.ofList x.text, pos⟩ :: ·) := by
  rw [tokensFrom]
  rw [if_neg (by simp [hblank])]
  split
  · rename_i hx'
    rw [hx] at hx'
    cases hx'
  · rename_i x' hx'
    rw [hx] at hx'
    cases hx'
    simp only
    cases tokensFrom limit room _ x.rest <;> rfl

end Steps

section Spelt

/-- A word stands for itself as a bare literal, also where it is a keyword. -/
theorem readFrom_word
    {l : Literal} {t : Token}
    (hkind : t.kind = wordKind t.text) (hread : l.ReadFrom t) :
    l = .bare t.text := by
  unfold wordKind at hkind
  rcases hread with hliteral | ⟨op, hoperator, hl⟩
  · rw [hliteral] at hkind
    split at hkind
    · cases hkind
    · exact TokenKind.literal.inj hkind
  · exact hl

/-- What a token read from a text stands for can be spelt. -/
theorem readLexeme_spelt
    {c : Char} {cs : List Char} {x : Lexeme}
    (hblank : Text.isBlank c = false)
    (hread : readLexeme c cs = some x)
    {l : Literal} {pos : Nat}
    (hl : l.ReadFrom ⟨x.kind, String.ofList x.text, pos⟩) :
    l.Spelt := by
  rcases readLexeme_cases hread with
    ⟨kind, hmark, rfl⟩ | ⟨rfl, value, text, rest, hquote, rfl⟩ | ⟨hc, rfl⟩
  · rcases hl with hliteral | ⟨op, hoperator, _⟩
    · simp only at hliteral
      subst hliteral
      simp [marks] at hmark
    · simp only at hoperator
      subst hoperator
      simp [marks] at hmark
  · rcases hl with hliteral | ⟨op, hoperator, _⟩
    · cases hliteral
      exact Literal.spelt_ofQuoted _
    · cases hoperator
  · rw [readFrom_word rfl hl]
    refine Literal.spelt_bare (by simp) ?_
    intro d hd
    rcases List.mem_cons.1 hd with rfl | hd
    · exact (endsWord_eq_false_iff d).2 ⟨hblank, hc⟩
    · simpa using List.all_eq_true.1 List.all_takeWhile d hd

/-- Tokens stand for literals that can be spelt, and are no more than there is room for. -/
theorem tokensFrom_spelt
    {limit room pos : Nat} {cs : List Char} {tokens : List Token}
    (hread : tokensFrom limit room pos cs = .ok tokens) :
    tokens.length ≤ room ∧ ∀ t ∈ tokens, ∀ l : Literal, l.ReadFrom t → l.Spelt := by
  induction room, pos, cs using tokensFrom.induct limit generalizing tokens with
  | case1 room pos =>
      rw [tokensFrom] at hread
      cases hread
      simp
  | case2 room pos c cs hblank ih =>
      rw [tokensFrom_blank hblank] at hread
      exact ih hread
  | case3 room pos c cs hblank hx =>
      rw [tokensFrom_unclosed (by simpa using hblank) hx] at hread
      cases hread
  | case4 pos c cs hblank x hx _ =>
      rw [tokensFrom_full (by simpa using hblank) hx] at hread
      cases hread
  | case5 pos c cs hblank x hx _ token room err hmore =>
      rw [tokensFrom_lexeme (by simpa using hblank) hx] at hread
      rw [hmore] at hread
      cases hread
  | case6 pos c cs hblank x hx _ token room more hmore =>
      rename_i ih
      rw [tokensFrom_lexeme (by simpa using hblank) hx] at hread
      rw [hmore] at hread
      cases hread
      obtain ⟨hlength, hspelt⟩ := ih hmore
      refine ⟨by simpa using hlength, ?_⟩
      intro t ht l hl
      rcases List.mem_cons.1 ht with rfl | ht
      · exact readLexeme_spelt (by simpa using hblank) hx hl
      · exact hspelt t ht l hl

end Spelt

end FieldQuery
