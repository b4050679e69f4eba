import FieldQuery.Proofs.Spelling

/-!
# What the text of a token says

The meaning of a token follows from its own text, without a word about how texts
are read.

* A mark is one of the five characters that are tokens by themselves.
* A quoted literal stands between two quotes.  Inside it a backslash before a quote
  or a backslash gives that character, every other backslash stands for itself, and
  no other quote occurs.
* Any other text without white space and delimiters is a word: an operator if its
  letters are those of a keyword, a bare literal if not.

**Results.**

* `readToQuote_eq_some_iff`: a quoted literal runs to its first unescaped quote;
* `readLexeme_eq_some_iff`: the token at the front of a text is the one whose text
  says so, a word being as long as it can be;
* `readLexeme_eq_none_iff`: there is no token only in front of an unclosed quote.
-/

namespace FieldQuery

section Quoting

/-- The inside of a quoted literal, and the text that it stands for. -/
inductive Unquotes : List Char → List Char → Prop
  | nil : Unquotes [] []
  | quote
      {body value : List Char}
      (hbody : Unquotes body value) :
      Unquotes ('\\' :: '"' :: body) ('"' :: value)
  | backslash
      {body value : List Char}
      (hbody : Unquotes body value) :
      Unquotes ('\\' :: '\\' :: body) ('\\' :: value)
  | kept
      {c : Char} {body value : List Char}
      (hquote : c ≠ '"') (hbackslash : c ≠ '\\')
      (hbody : Unquotes (c :: body) value) :
      Unquotes ('\\' :: c :: body) ('\\' :: value)
  | plain
      {c : Char} {body value : List Char}
      (hquote : c ≠ '"') (hbackslash : c ≠ '\\')
      (hbody : Unquotes body value) :
      Unquotes (c :: body) (c :: value)

/-- No quote in the text closes a literal that was opened before it. -/
def Unclosed (cs : List Char) : Prop :=
  ∀ body value rest, Unquotes body value → cs ≠ body ++ '"' :: rest

/-- What is between the quotes of a literal is read up to the second of them. -/
theorem Unquotes.readToQuote
    {body value : List Char} (hbody : Unquotes body value) (rest : List Char) :
    readToQuote (body ++ '"' :: rest) = some (value, body ++ ['"'], rest) := by
  induction hbody with
  | nil =>
      simp [FieldQuery.readToQuote]
  | quote _ ih =>
      simp [FieldQuery.readToQuote, ih]
  | backslash _ ih =>
      simp [FieldQuery.readToQuote, ih]
  | kept hquote hbackslash _ ih =>
      rw [List.cons_append, FieldQuery.readToQuote.eq_5, ih]
      · simp
      · simp
      · simp [hquote]
      · simp [hbackslash]
  | plain hquote hbackslash _ ih =>
      rw [List.cons_append, FieldQuery.readToQuote.eq_5, ih]
      · simp
      · exact hquote
      · simp [hbackslash]
      · simp [hbackslash]

/-- What was read up to a quote is the inside of a literal with its closing quote. -/
theorem unquotes_of_readToQuote
    {cs value text rest : List Char}
    (hread : readToQuote cs = some (value, text, rest)) :
    ∃ body, Unquotes body value ∧ text = body ++ ['"'] := by
  induction cs using readToQuote.induct generalizing value text rest with
  | case1 =>
      simp [readToQuote] at hread
  | case2 cs =>
      simp [readToQuote] at hread
      obtain ⟨rfl, rfl, rfl⟩ := hread
      exact ⟨[], .nil, rfl⟩
  | case3 cs ih =>
      rw [readToQuote] at hread
      obtain ⟨⟨v, t, r⟩, hrest, heq⟩ := Option.map_eq_some_iff.1 hread
      obtain ⟨body, hbody, rfl⟩ := ih hrest
      cases heq
      exact ⟨'\\' :: '"' :: body, .quote hbody, rfl⟩
  | case4 cs ih =>
      rw [readToQuote] at hread
      obtain ⟨⟨v, t, r⟩, hrest, heq⟩ := Option.map_eq_some_iff.1 hread
      obtain ⟨body, hbody, rfl⟩ := ih hrest
      cases heq
      exact ⟨'\\' :: '\\' :: body, .backslash hbody, rfl⟩
  | case5 c cs hquote hescape hbackslash ih =>
      rw [readToQuote.eq_5 _ _ hquote hescape hbackslash] at hread
      obtain ⟨⟨v, t, r⟩, hrest, heq⟩ := Option.map_eq_some_iff.1 hread
      obtain ⟨body, hbody, rfl⟩ := ih hrest
      cases heq
      refine ⟨c :: body, ?_, rfl⟩
      by_cases hc : c = '\\'
      · -- the backslash is kept: what is behind it can be neither of the two characters
        subst hc
        have htext := readToQuote_append hrest
        cases body with
        | nil =>
            exact (hescape _ rfl htext.symm).elim
        | cons d body =>
            refine .kept ?_ ?_ hbody
            · rintro rfl
              exact hescape _ rfl htext.symm
            · rintro rfl
              exact hbackslash _ rfl htext.symm
      · exact .plain hquote hc hbody

/-- **A quoted literal ends at the first quote without a backslash.** -/
theorem readToQuote_eq_some_iff
    {cs value text rest : List Char} :
    readToQuote cs = some (value, text, rest) ↔
      ∃ body, Unquotes body value ∧ text = body ++ ['"'] ∧ cs = body ++ '"' :: rest := by
  constructor
  · intro hread
    obtain ⟨body, hbody, rfl⟩ := unquotes_of_readToQuote hread
    exact ⟨body, hbody, rfl, by simpa using (readToQuote_append hread).symm⟩
  · rintro ⟨body, hbody, rfl, rfl⟩
    exact hbody.readToQuote rest

theorem readToQuote_eq_none_iff
    {cs : List Char} :
    readToQuote cs = none ↔ Unclosed cs := by
  constructor
  · rintro hread body value rest hbody rfl
    rw [hbody.readToQuote rest] at hread
    cases hread
  · intro hunclosed
    cases hread : readToQuote cs with
    | none =>
        rfl
    | some result =>
        obtain ⟨value, text, rest⟩ := result
        obtain ⟨body, hbody, _, hcs⟩ := readToQuote_eq_some_iff.1 hread
        exact (hunclosed body value rest hbody hcs).elim

end Quoting

section Words

/-- A text that is a word if nothing around it makes it part of something else. -/
def IsWord (text : List Char) : Prop :=
  text ≠ [] ∧ ∀ c ∈ text, Text.isBlank c = false ∧ c ∉ delimiters

/-- Two texts that differ at most in the case of ASCII letters. -/
def SameLetters (a b : List Char) : Prop :=
  a.map Char.toLower = b.map Char.toLower

/-- A word spells the operator whose keyword has its letters. -/
theorem Operator.ofName?_eq_some_iff
    {word : String} {op : Operator} :
    ofName? word = some op ↔ SameLetters op.name.toList word.toList := by
  have hlower : ∀ op ∈ all, op.name.toList.map Char.toLower = op.name.toList := by
    decide
  unfold SameLetters
  rw [hlower op op.mem_all, ofName?]
  constructor
  · intro hfind
    simpa using List.find?_some hfind
  · intro hname
    cases hfind : all.find? fun op => op.name.toList = word.toList.map Char.toLower with
    | none =>
        have hno := List.find?_eq_none.1 hfind op op.mem_all
        simp [hname] at hno
    | some op' =>
        have hname' : op'.name.toList = word.toList.map Char.toLower := by
          simpa using List.find?_some hfind
        have heq : op'.name = op.name := String.toList_inj.1 (hname'.trans hname.symm)
        rw [name_injective heq]

theorem Operator.ofName?_eq_none_iff
    {word : String} :
    ofName? word = none ↔ ∀ op : Operator, ¬ SameLetters op.name.toList word.toList := by
  rw [Option.eq_none_iff_forall_ne_some]
  simp only [ne_eq, ofName?_eq_some_iff]

theorem isWord_cons_iff
    {c : Char} {cs : List Char} :
    IsWord (c :: cs) ↔ ∀ d ∈ c :: cs, endsWord d = false := by
  simp [IsWord, endsWord_eq_false_iff]

/-- A word ends where the characters that can be in it end. -/
theorem stopsWord_dropWhile
    (cs : List Char) :
    StopsWord (cs.dropWhile (! endsWord ·)) := by
  induction cs with
  | nil =>
      exact stopsWord_nil
  | cons c cs ih =>
      by_cases hc : endsWord c = true
      · rw [List.dropWhile_cons_of_neg (by simp [hc])]
        exact hc
      · rw [List.dropWhile_cons_of_pos (by simp [hc])]
        exact ih

end Words

section Tokens

/-- What a text says as a token. -/
inductive Spells : List Char → TokenKind → Prop
  | mark
      {c : Char} {kind : TokenKind}
      (hmark : (c, kind) ∈ marks) :
      Spells [c] kind
  | quoted
      {body value : List Char}
      (hbody : Unquotes body value) :
      Spells ('"' :: (body ++ ['"'])) (.literal (.ofQuoted (String.ofList value)))
  | keyword
      {text : List Char} {op : Operator}
      (hword : IsWord text) (hop : SameLetters op.name.toList text) :
      Spells text (.operator op)
  | bare
      {text : List Char}
      (hword : IsWord text)
      (hplain : ∀ op : Operator, ¬ SameLetters op.name.toList text) :
      Spells text (.literal (.bare (String.ofList text)))

theorem spells_wordKind
    {text : List Char} (hword : IsWord text) :
    Spells text (wordKind (String.ofList text)) := by
  unfold wordKind
  cases hname : Operator.ofName? (String.ofList text) with
  | none =>
      rw [Operator.ofName?_eq_none_iff, String.toList_ofList] at hname
      exact .bare hword hname
  | some op =>
      rw [Operator.ofName?_eq_some_iff, String.toList_ofList] at hname
      exact .keyword hword hname

theorem Spells.eq_wordKind
    {text : List Char} {kind : TokenKind}
    (hspells : Spells text kind) (hword : IsWord text) :
    kind = wordKind (String.ofList text) := by
  unfold wordKind
  cases hspells with
  | mark hmark =>
      exact absurd (mem_delimiters_of_mark hmark) (hword.2 _ (by simp)).2
  | quoted _ =>
      exact absurd (by simp [delimiters]) (hword.2 '"' (by simp)).2
  | keyword _ hop =>
      rw [← String.toList_ofList (l := text)] at hop
      rw [Operator.ofName?_eq_some_iff.2 hop]
  | bare _ hplain =>
      rw [← String.toList_ofList (l := text)] at hplain
      rw [Operator.ofName?_eq_none_iff.2 hplain]

/-- A token begins with a character that is not white space. -/
theorem Spells.exists_cons
    {text : List Char} {kind : TokenKind} (hspells : Spells text kind) :
    ∃ c cs, text = c :: cs ∧ Text.isBlank c = false := by
  have hfirst : ∀ {text : List Char}, IsWord text →
      ∃ c cs, text = c :: cs ∧ Text.isBlank c = false := by
    intro text hword
    cases text with
    | nil =>
        exact absurd rfl hword.1
    | cons c cs =>
        exact ⟨c, cs, rfl, (hword.2 c (by simp)).1⟩
  cases hspells with
  | mark hmark =>
      exact ⟨_, _, rfl, isBlank_delimiter (mem_delimiters_of_mark hmark)⟩
  | quoted _ =>
      exact ⟨_, _, rfl, by decide⟩
  | keyword hword _ =>
      exact hfirst hword
  | bare hword _ =>
      exact hfirst hword

/-- A token that a text spells at its front is read there, unless a longer word is. -/
theorem Spells.readLexeme
    {c : Char} {text rest : List Char} {kind : TokenKind}
    (hspells : Spells (c :: text) kind)
    (hstop : IsWord (c :: text) → StopsWord rest) :
    readLexeme c (text ++ rest) = some ⟨kind, c :: text, rest⟩ := by
  by_cases hword : IsWord (c :: text)
  · rw [hspells.eq_wordKind hword]
    exact readLexeme_word (isWord_cons_iff.1 hword) (hstop hword)
  · generalize htext : c :: text = whole at hspells
    cases hspells with
    | mark hmark =>
        cases htext
        exact readLexeme_mark hmark rest
    | quoted hbody =>
        cases htext
        simp [FieldQuery.readLexeme, hbody.readToQuote rest]
    | keyword hword' _ =>
        exact absurd (htext ▸ hword') hword
    | bare hword' _ =>
        exact absurd (htext ▸ hword') hword

/-- **The token at the front of a text** is what its own text says, a word as long as it can be. -/
theorem readLexeme_eq_some_iff
    {c : Char} {cs : List Char} (hblank : Text.isBlank c = false) {x : Lexeme} :
    readLexeme c cs = some x ↔
      x.text ++ x.rest = c :: cs ∧ Spells x.text x.kind ∧
        (IsWord x.text → StopsWord x.rest) := by
  constructor
  · intro hread
    refine ⟨readLexeme_append hread, ?_⟩
    rcases readLexeme_cases hread with
      ⟨kind, hmark, rfl⟩ | ⟨rfl, value, text, rest, hquote, rfl⟩ | ⟨hc, rfl⟩
    · refine ⟨.mark hmark, fun hword => ?_⟩
      exact absurd (mem_delimiters_of_mark hmark) (hword.2 c (by simp)).2
    · obtain ⟨body, hbody, rfl⟩ := unquotes_of_readToQuote hquote
      refine ⟨.quoted hbody, fun hword => ?_⟩
      exact absurd (by simp [delimiters]) (hword.2 '"' (by simp)).2
    · have hword : IsWord (c :: cs.takeWhile (! endsWord ·)) := by
        rw [isWord_cons_iff]
        intro d hd
        rcases List.mem_cons.1 hd with rfl | hd
        · exact (endsWord_eq_false_iff d).2 ⟨hblank, hc⟩
        · simpa using List.all_eq_true.1 List.all_takeWhile d hd
      exact ⟨spells_wordKind hword, fun _ => stopsWord_dropWhile cs⟩
  · obtain ⟨kind, text, rest⟩ := x
    rintro ⟨hcs, hspells, hstop⟩
    obtain ⟨d, ds, rfl, _⟩ := hspells.exists_cons
    obtain ⟨rfl, rfl⟩ := List.cons.inj hcs
    exact hspells.readLexeme hstop

/-- No token is read only where a literal is opened and not closed. -/
theorem readLexeme_eq_none_iff
    {c : Char} {cs : List Char} :
    readLexeme c cs = none ↔ c = '"' ∧ Unclosed cs := by
  rw [← readToQuote_eq_none_iff]
  by_cases hc : c = '"'
  · subst hc
    simp [readLexeme]
  · grind [readLexeme]

end Tokens

end FieldQuery
