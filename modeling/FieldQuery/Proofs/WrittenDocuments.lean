import FieldQuery.Proofs.DecimalTexts
import FieldQuery.Proofs.QuotedTexts

/-!
# Written documents

A document of tables is written one statement on a line, and reading gives the same
tables back.  Every part of it is read whatever follows its line, so the parts compose:
a key up to what cannot continue it, a value up to the end of its line, a line in front
of the lines that follow, and a table behind the tables before it.

**Results.**

* `readKey_writeKey`, `readMember_writeEntry`: a key and its value are read back;
* `valueText_writeText`, `valueText_natDigits`, `valueText_boolean`,
  `valueText_writeTexts`: every kind of value is read back up to the end of its line;
* `Document.readStatements`: the lines of a document are read as its statements;
* `ofStatements?_flatMap`: the statements of tables make these tables;
* `Document.read?`: a document is read back.
-/

namespace FieldQuery

namespace Toml

section Scanning

/-- No space is left out in front of anything else. -/
theorem skipSpace_of_head?
    {cs : List Char} (hcs : ∀ c ∈ cs.head?, isSpace c = false) :
    skipSpace cs = cs :=
  dropWhile_append_of_head? (List.forall_mem_nil _) hcs

/-- Nothing is left out in front of what is no space, line break or comment. -/
theorem skipBreaks_of_ne
    {c : Char} (hspace : isSpace c = false) (hbreak : c ≠ '\n') (hreturn : c ≠ '\r')
    (hcomment : c ≠ '#') (cs : List Char) :
    skipBreaks false (c :: cs) = some (c :: cs) := by
  rw [skipBreaks]
  · simp [hspace, hcomment]
  · exact hbreak
  · intro _ hc
    exact absurd hc hreturn

end Scanning

section Keys

/-- Whether a key may begin with a character. -/
def startsKey (c : Char) : Bool :=
  isBare c || c = '"' || c = '\''

theorem ne_of_startsKey
    {c d : Char} (hc : startsKey c = true) (hd : startsKey d = false) :
    c ≠ d := by
  rintro rfl
  rw [hc] at hd
  cases hd

theorem isSpace_of_startsKey
    {c : Char} (hstart : startsKey c = true) :
    isSpace c = false := by
  simp only [isSpace, Bool.or_eq_false_iff, decide_eq_false_iff_not]
  exact ⟨ne_of_startsKey hstart rfl, ne_of_startsKey hstart rfl⟩

/-- Nothing is left out in front of what may begin a key. -/
theorem skipBreaks_of_startsKey
    {c : Char} (hstart : startsKey c = true) (cs : List Char) :
    skipBreaks false (c :: cs) = some (c :: cs) :=
  skipBreaks_of_ne (isSpace_of_startsKey hstart) (ne_of_startsKey hstart rfl)
    (ne_of_startsKey hstart rfl) (ne_of_startsKey hstart rfl) cs

/-- A written key begins with what a key may begin with. -/
theorem exists_writeKey
    (s : String) :
    ∃ c cs, writeKey s = c :: cs ∧ startsKey c = true := by
  unfold writeKey
  dsimp only
  split
  · rename_i hbare
    simp only [Bool.and_eq_true, Bool.not_eq_true', List.isEmpty_eq_false_iff,
      List.all_eq_true] at hbare
    obtain ⟨c, cs, hcs⟩ := List.exists_cons_of_ne_nil hbare.1
    exact ⟨c, cs, hcs, by simp [startsKey, hbare.2 c (by simp [hcs])]⟩
  split
  · exact ⟨_, _, rfl, by decide⟩
  split
  · exact ⟨_, _, rfl, by decide⟩
  · exact ⟨_, _, rfl, by decide⟩

/-- A text between quotes on one line is a key. -/
theorem readKey_of_readLine?
    {c : Char} {cs text rest : List Char} (hquote : c = '"' ∨ c = '\'')
    (hread : readLine? (c :: cs) = some (text, rest)) :
    readKey (c :: cs) = some (String.ofList text, rest) := by
  rw [readKey, if_pos hquote, hread]
  rfl

/-- A word is a key up to the first character that cannot continue it. -/
theorem readKey_bare
    {cs : List Char} (hne : cs ≠ []) (hcs : ∀ c ∈ cs, isBare c = true)
    {rest : List Char} (hrest : ∀ c ∈ rest.head?, isBare c = false) :
    readKey (cs ++ rest) = some (String.ofList cs, rest) := by
  obtain ⟨c, cs, rfl⟩ := List.exists_cons_of_ne_nil hne
  have hmore : ∀ d ∈ cs, isBare d = true := fun d hmem => hcs d (List.mem_cons_of_mem _ hmem)
  have hquote : ¬ (c = '"' ∨ c = '\'') := by
    rintro (rfl | rfl)
    · exact absurd (hcs '"' (by simp)) (by decide)
    · exact absurd (hcs '\'' (by simp)) (by decide)
  rw [List.cons_append, readKey, if_neg hquote, if_pos (hcs c (by simp)),
    takeWhile_append_of_head? hmore hrest, dropWhile_append_of_head? hmore hrest]

/-- A key is read back up to what cannot continue it. -/
theorem readKey_writeKey
    (s : String) {rest : List Char} (hrest : ∀ c ∈ rest.head?, isBare c = false) :
    readKey (writeKey s ++ rest) = some (s, rest) := by
  rw [← String.ofList_toList (s := s)]
  unfold writeKey
  simp only [String.toList_ofList]
  split
  · rename_i hbare
    simp only [Bool.and_eq_true, Bool.not_eq_true', List.isEmpty_eq_false_iff,
      List.all_eq_true] at hbare
    exact readKey_bare hbare.1 hbare.2 hrest
  split
  · exact readKey_of_readLine? (.inl rfl) (readLine?_writeBasic _ rest)
  split
  · rename_i hfits
    exact readKey_of_readLine? (.inr rfl) (readLine?_writeLiteral hfits rest)
  · exact readKey_of_readLine? (.inl rfl) (readLine?_writeBasic _ rest)

/-- A key that no point follows is a whole dotted key. -/
theorem readKeyPath_writeKey
    (s : String) (rest : List Char) (hrest : ∀ c ∈ rest.head?, isBare c = false)
    (hpoint : (skipSpace rest).head? ≠ some '.') :
    readKeyPath (writeKey s ++ rest) = some (⟨[], s⟩, skipSpace rest) := by
  have hnames : readNames (writeKey s ++ rest) = some (⟨[], s⟩, skipSpace rest) := by
    rw [readNames, readKey_writeKey s hrest]
    dsimp only
    split
    · rename_i hmore
      simp [hmore] at hpoint
    · rfl
  rw [readKeyPath, hnames]
  rfl

end Keys

section Values

/-- A text that is read as a value up to the end of its line. -/
structure ValueText (text : List Char) (v : Toml) : Prop where
  head : ∀ c ∈ text.head?, isSpace c = false
  read : ∀ rest, readValue maxNesting (text ++ '\n' :: rest) = some (v, '\n' :: rest)

/-- What begins as a key may is a value without brackets. -/
theorem readValue_of_startsKey
    {c : Char} (hstart : startsKey c = true) (room : Nat) (cs : List Char) :
    readValue room (c :: cs) = readScalar (c :: cs) := by
  have harray : c ≠ '[' := ne_of_startsKey hstart rfl
  have htable : c ≠ '\x7b' := ne_of_startsKey hstart rfl
  cases room with
  | zero =>
      rw [readValue]
      · intro _ hopen
        exact harray (List.cons.inj hopen).1
      · intro _ hopen
        exact htable (List.cons.inj hopen).1
  | succ room =>
      rw [readValue]
      · intro _ hopen
        exact harray (List.cons.inj hopen).1
      · intro _ hopen
        exact htable (List.cons.inj hopen).1

theorem exists_writeText
    (s : String) :
    ∃ c cs, writeText s = c :: cs ∧ (c = '"' ∨ c = '\'') := by
  unfold writeText
  dsimp only
  split
  · exact ⟨_, _, rfl, .inl rfl⟩
  split
  · exact ⟨_, _, rfl, .inr rfl⟩
  split
  · exact ⟨_, _, rfl, .inl rfl⟩
  split
  · exact ⟨_, _, rfl, .inr rfl⟩
  split
  · exact ⟨_, _, rfl, .inl rfl⟩
  · exact ⟨_, _, rfl, .inl rfl⟩

theorem startsKey_of_quote
    {c : Char} (hquote : c = '"' ∨ c = '\'') :
    startsKey c = true := by
  rcases hquote with rfl | rfl <;> decide

/-- Nothing is left out in front of a written text. -/
theorem skipBreaks_writeText
    (s : String) (rest : List Char) :
    skipBreaks false (writeText s ++ rest) = some (writeText s ++ rest) := by
  obtain ⟨c, cs, htext, hquote⟩ := exists_writeText s
  rw [htext]
  exact skipBreaks_of_startsKey (startsKey_of_quote hquote) _

/-- A text is read back as a value, however many brackets may still be opened. -/
theorem readValue_writeText
    (room : Nat) (s : String) (rest : List Char)
    (hdouble : rest.head? ≠ some '"') (hsingle : rest.head? ≠ some '\'') :
    readValue room (writeText s ++ rest) = some (.string s, rest) := by
  have hread := readQuote?_writeText s hdouble hsingle
  obtain ⟨c, cs, htext, hquote⟩ := exists_writeText s
  rw [htext, List.cons_append] at hread ⊢
  rw [readValue_of_startsKey (startsKey_of_quote hquote), readScalar, if_pos hquote, hread]
  simp

theorem valueText_writeText
    (s : String) :
    ValueText (writeText s) (.string s) where
  head := by
    obtain ⟨c, cs, htext, hquote⟩ := exists_writeText s
    simpa [htext] using isSpace_of_startsKey (startsKey_of_quote hquote)
  read := fun rest => readValue_writeText maxNesting s _ (by simp) (by simp)

theorem ne_of_isAlphanum
    {c d : Char} (hc : c.isAlphanum = true) (hd : d.isAlphanum = false) :
    c ≠ d := by
  rintro rfl
  rw [hc] at hd
  cases hd

theorem startsKey_of_isAlphanum
    {c : Char} (halnum : c.isAlphanum = true) :
    startsKey c = true := by
  simp [startsKey, isBare, halnum]

/-- Letters and digits belong to words. -/
theorem isWordChar_of_isAlphanum
    {c : Char} (halnum : c.isAlphanum = true) :
    isWordChar c = true := by
  have hdelimiter : c ∉ ['\n', '\r', ',', '=', '[', ']', '\x7b', '\x7d', '#'] := by
    intro hmem
    have hall : (['\n', '\r', ',', '=', '[', ']', '\x7b', '\x7d', '#'].all
        (! Char.isAlphanum ·)) = true := rfl
    have hnot := List.all_eq_true.1 hall c hmem
    simp [halnum] at hnot
  simp only [isWordChar, isSpace_of_startsKey (startsKey_of_isAlphanum halnum),
    List.contains_eq_mem, hdelimiter, decide_false, Bool.or_self, Bool.not_false]

/-- A word ends where its line does. -/
theorem splitWord_append
    {word : List Char} (hword : ∀ c ∈ word, isWordChar c = true) (rest : List Char) :
    splitWord (word ++ '\n' :: rest) = (word, '\n' :: rest) := by
  have hend : ∀ c ∈ ('\n' :: rest).head?, isWordChar c = false := by
    rintro c ⟨⟩
    decide
  rw [splitWord, takeWhile_append_of_head? hword hend, dropWhile_append_of_head? hword hend]
  split
  · rename_i hspace
    cases hspace
  · rfl

/-- A word of letters and digits stands for its value. -/
theorem valueText_word
    {word : List Char} {v : Toml} (hne : word ≠ [])
    (hall : word.all Char.isAlphanum = true) (hvalue : wordValue? word = some v) :
    ValueText word v := by
  have hword := List.all_eq_true.1 hall
  obtain ⟨c, cs, rfl⟩ := List.exists_cons_of_ne_nil hne
  have hc : c.isAlphanum = true := hword c (by simp)
  have hstart := startsKey_of_isAlphanum hc
  have hquote : ¬ (c = '"' ∨ c = '\'') :=
    not_or.2 ⟨ne_of_isAlphanum hc rfl, ne_of_isAlphanum hc rfl⟩
  refine ⟨by simpa using isSpace_of_startsKey hstart, fun rest => ?_⟩
  have hsplit := splitWord_append (fun d hmem => isWordChar_of_isAlphanum (hword d hmem)) rest
  rw [List.cons_append] at hsplit ⊢
  rw [readValue_of_startsKey hstart, readScalar, if_neg hquote, hsplit]
  simp [hvalue]

theorem valueText_boolean
    (b : Bool) :
    ValueText (toString b).toList (.boolean b) := by
  cases b with
  | false =>
      change ValueText ['f', 'a', 'l', 's', 'e'] _
      exact valueText_word (by decide) (by decide) rfl
  | true =>
      change ValueText ['t', 'r', 'u', 'e'] _
      exact valueText_word (by decide) (by decide) rfl

/-- The digits of a number start with a zero only if it is zero. -/
theorem head?_natDigits
    {n : Nat} (hn : n ≠ 0) :
    (natDigits n).head? ≠ some '0' := by
  have hdigit : ∀ m < 10, m ≠ 0 → [m.digitChar].head? ≠ some '0' := by decide
  unfold natDigits
  induction n using Nat.strongRecOn with
  | ind n ih =>
      rcases Nat.lt_or_ge n 10 with hlt | hge
      · rw [Nat.toDigits_of_lt_base hlt]
        exact hdigit n hlt hn
      · have hfront := ih (n / 10) (by omega) (by omega)
        obtain ⟨c, cs, hcs⟩ := List.exists_cons_of_ne_nil
          (Nat.toDigits_ne_nil (n := n / 10) (b := 10))
        rw [Nat.toDigits_of_base_le (by decide) hge, hcs]
        rwa [hcs] at hfront

/-- Digits have the shape of an integer. -/
theorem isWhole_natDigits
    (n : Nat) :
    isWhole (natDigits n) = true := by
  have hdrop : (natDigits n ++ []).dropWhile Char.isDigit = [] :=
    dropWhile_append_of_head? isDigit_of_mem_natDigits (by simp)
  rw [List.append_nil] at hdrop
  rw [isWhole, hdrop]
  rcases Nat.eq_zero_or_pos n with rfl | hpos
  · decide
  · have hzero := head?_natDigits (Nat.pos_iff_ne_zero.1 hpos)
    have hne : natDigits n ≠ [] := Nat.toDigits_ne_nil
    simp [hzero, hne]

/-- A text without underscores is as it is without them. -/
theorem ungroupFrom?_of_forall
    {isDigit : Char → Bool} {afterDigit : Bool} {cs : List Char} (hcs : ∀ c ∈ cs, c ≠ '_') :
    ungroupFrom? isDigit afterDigit cs = some cs := by
  induction cs generalizing afterDigit with
  | nil =>
      rfl
  | cons c cs ih =>
      have hc := hcs c (by simp)
      rw [ungroupFrom?, ih fun d hmem => hcs d (List.mem_cons_of_mem _ hmem)]
      · rfl
      all_goals simp [hc]

/-- The digits of a number are read as an integer. -/
theorem readInteger?_natDigits
    {n : Nat} (hn : n < Nat.pow 2 64) :
    readInteger? (natDigits n) = some (.integer n) := by
  have hnot : ∀ d : Char, d.isDigit = false → d ∉ natDigits n := by
    intro d hd hmem
    rw [isDigit_of_mem_natDigits d hmem] at hd
    cases hd
  have hsign : splitSign (natDigits n) = (false, natDigits n) :=
    Signed.none.splitSign_of_head fun c hc =>
      Or.inl (isDigit_of_mem_natDigits c (List.mem_of_mem_head? hc))
  have hungroup : ungroup? isHexDigit (natDigits n) = some (natDigits n) :=
    ungroupFrom?_of_forall fun c hmem hc => hnot '_' rfl (hc ▸ hmem)
  have hfits : fits n = true := by
    simp only [fits, Nat.pow_eq, Bool.and_eq_true, decide_eq_true_eq] at hn ⊢
    omega
  have hdecimal : readDecimal? (natDigits n) = some (.integer n) := by
    rw [readDecimal?, hsign, if_pos (isWhole_natDigits n), hungroup]
    simpa [hsign, digitsValue_natDigits, ofInt, hfits] using isDigit_of_mem_natDigits
  rw [readInteger?]
  · exact hdecimal
  · intro more hdigits
    exact hnot 'x' rfl (by simp [hdigits])
  · intro more hdigits
    exact hnot 'o' rfl (by simp [hdigits])
  · intro more hdigits
    exact hnot 'b' rfl (by simp [hdigits])

theorem valueText_natDigits
    {n : Nat} (hn : n < Nat.pow 2 64) :
    ValueText (natDigits n) (.integer n) := by
  have halnum : ∀ c ∈ natDigits n, c.isAlphanum = true := by
    intro c hmem
    simp [Char.isAlphanum, isDigit_of_mem_natDigits c hmem]
  have hword : wordValue? (natDigits n) = some (.integer n) := by
    rw [wordValue?, if_neg, if_neg, readInteger?_natDigits hn]
    · rfl
    · intro hdigits
      have hmem : 'f' ∈ natDigits n := by simp [hdigits]
      exact absurd (isDigit_of_mem_natDigits 'f' hmem) (by decide)
    · intro hdigits
      have hmem : 't' ∈ natDigits n := by simp [hdigits]
      exact absurd (isDigit_of_mem_natDigits 't' hmem) (by decide)
  exact valueText_word Nat.toDigits_ne_nil (List.all_eq_true.2 halnum) hword

end Values

section Arrays

/-- A closing bracket ends the items. -/
theorem readItems_close
    (item : Reader Toml) (rest : List Char) :
    readItems ']' item (']' :: rest) = some ([], rest) := by
  rw [readItems]
  rfl

/-- An item is the last in front of a closing bracket, and the first of more in front of a comma. -/
theorem readItems_writeText
    {room : Nat} {s : String} {cs rest : List Char} {d : Char}
    (hskip : skipBreaks false cs = some (writeText s ++ d :: rest)) (hd : d = ']' ∨ d = ',') :
    readItems ']' (readValue room) cs =
      if d = ']' then some ([string s], rest)
      else if rest.length < cs.length then
        (readItems ']' (readValue room) rest).map fun (items, rest) => (string s :: items, rest)
      else none := by
  have hitem : readValue room (writeText s ++ d :: rest) = some (string s, d :: rest) := by
    rcases hd with rfl | rfl
    · exact readValue_writeText room s _ (by simp) (by simp)
    · exact readValue_writeText room s _ (by simp) (by simp)
  have hbehind : skipBreaks false (d :: rest) = some (d :: rest) := by
    rcases hd with rfl | rfl
    · exact skipBreaks_of_ne (by decide) (by decide) (by decide) (by decide) rest
    · exact skipBreaks_of_ne (by decide) (by decide) (by decide) (by decide) rest
  obtain ⟨c, text, htext, hquote⟩ := exists_writeText s
  have hopen : c ≠ ']' := ne_of_startsKey (startsKey_of_quote hquote) rfl
  rw [htext, List.cons_append] at hskip hitem
  rw [readItems, hskip]
  simp only [hopen, if_false, hitem, hbehind]
  rcases hd with rfl | rfl
  · rfl
  · rfl

/-- The line of an item of an array. -/
def itemLine (s : String) : List Char :=
  [' ', ' ', ' ', ' '] ++ writeText s ++ [',', '\n']

/-- Items are read back from their lines. -/
theorem readItems_lines
    (room : Nat) (ss : List String) (rest : List Char) :
    readItems ']' (readValue room) ('\n' :: (ss.flatMap itemLine ++ ']' :: rest)) =
      some (ss.map string, rest) := by
  induction ss with
  | nil =>
      rw [readItems]
      rfl
  | cons s ss ih =>
      -- What follows the comma of an item begins with a line break, as the whole does.
      generalize hlines : '\n' :: (ss.flatMap itemLine ++ ']' :: rest) = lines at ih
      have hwritten :
          '\n' :: ((s :: ss).flatMap itemLine ++ ']' :: rest) =
            '\n' :: ' ' :: ' ' :: ' ' :: ' ' :: (writeText s ++ ',' :: lines) := by
        simp [itemLine, ← hlines]
      have hskip :
          skipBreaks false ('\n' :: ' ' :: ' ' :: ' ' :: ' ' :: (writeText s ++ ',' :: lines)) =
            some (writeText s ++ ',' :: lines) :=
        skipBreaks_writeText s _
      have hshorter :
          lines.length <
            ('\n' :: ' ' :: ' ' :: ' ' :: ' ' :: (writeText s ++ ',' :: lines)).length := by
        simp only [List.length_cons, List.length_append]
        omega
      rw [hwritten, readItems_writeText hskip (.inr rfl), if_neg (by decide), if_pos hshorter, ih]
      rfl

/-- Texts are read back as the items of an array, however many they are. -/
theorem valueText_writeTexts
    (ss : List String) :
    ValueText (writeTexts ss) (.array (ss.map string)) := by
  have hitems : ∀ rest, ∃ body, writeTexts ss ++ rest = '[' :: body ∧
      readItems ']' (readValue (maxNesting - 1)) body = some (ss.map string, rest) := by
    intro rest
    match ss with
    | [] =>
        exact ⟨_, rfl, readItems_close _ rest⟩
    | [s] =>
        refine ⟨writeText s ++ ']' :: rest, by simp [writeTexts], ?_⟩
        rw [readItems_writeText (skipBreaks_writeText s _) (.inl rfl), if_pos rfl]
        rfl
    | s :: t :: ss =>
        refine ⟨'\n' :: ((s :: t :: ss).flatMap itemLine ++ ']' :: rest), ?_,
          readItems_lines _ _ rest⟩
        change '[' :: '\n' :: ((s :: t :: ss).flatMap itemLine ++ [']']) ++ rest = _
        simp
  constructor
  · obtain ⟨body, htext, -⟩ := hitems []
    rw [List.append_nil] at htext
    simp [htext, isSpace]
  · intro rest
    obtain ⟨body, htext, hread⟩ := hitems ('\n' :: rest)
    have hroom : maxNesting = maxNesting - 1 + 1 := rfl
    rw [htext, hroom, readValue, hread]
    rfl

end Arrays

section Lines

/-- A line break in front of a document changes nothing. -/
theorem readStatements_break
    {cs : List Char} {statements : List Statement}
    (hread : readStatements cs = some statements) :
    readStatements ('\n' :: cs) = some statements := by
  -- Both readings go on alike; they differ in the length that what is left must be below.
  have hskip : skipBreaks false ('\n' :: cs) = skipBreaks false cs := rfl
  rw [readStatements] at hread ⊢
  rw [hskip]
  match hfirst : skipBreaks false cs with
  | none =>
      simp [hfirst] at hread
  | some [] =>
      simpa [hfirst] using hread
  | some (c :: more) =>
      rw [hfirst] at hread
      dsimp only at hread ⊢
      match hstatement : readStatement (c :: more) with
      | none =>
          simp [hstatement] at hread
      | some (statement, rest) =>
          rw [hstatement] at hread
          dsimp only at hread ⊢
          split at hread
          · rename_i hline
            rw [dif_pos ⟨hline.1, Nat.lt_succ_of_lt hline.2⟩]
            exact hread
          · cases hread

/-- The statement of a line stands in front of those on the lines that follow. -/
theorem readStatements_line
    {line rest : List Char} {statement : Statement} {statements : List Statement}
    (hne : line ≠ [])
    (hskip : skipBreaks false (line ++ '\n' :: rest) = some (line ++ '\n' :: rest))
    (hline : readStatement (line ++ '\n' :: rest) = some (statement, '\n' :: rest))
    (hread : readStatements rest = some statements) :
    readStatements (line ++ '\n' :: rest) = some (statement :: statements) := by
  obtain ⟨c, cs, rfl⟩ := List.exists_cons_of_ne_nil hne
  have hends : endsLine ('\n' :: rest) = true := rfl
  have hshorter : ('\n' :: rest).length < (c :: (cs ++ '\n' :: rest)).length := by
    simp only [List.length_cons, List.length_append]
    omega
  rw [List.cons_append] at hskip hline ⊢
  rw [readStatements, hskip]
  simp only [hline]
  rw [dif_pos ⟨hends, hshorter⟩, readStatements_break hread]
  rfl

/-- A header stands in front of the statements on the lines that follow. -/
theorem readStatements_writeHeader
    (name : String) {rest : List Char} {statements : List Statement}
    (hread : readStatements rest = some statements) :
    readStatements (writeHeader name ++ rest) = some (.table ⟨[], name⟩ :: statements) := by
  obtain ⟨c, cs, hkey, hstart⟩ := exists_writeKey name
  have hopen : c ≠ '[' := ne_of_startsKey hstart rfl
  have hpath := readKeyPath_writeKey name (']' :: '\n' :: rest) (by simp [isBare])
    (by simp [skipSpace, isSpace])
  have hclose : skipSpace (']' :: '\n' :: rest) = ']' :: '\n' :: rest := rfl
  have hkeySpace :
      skipSpace (writeKey name ++ ']' :: '\n' :: rest) = writeKey name ++ ']' :: '\n' :: rest :=
    skipSpace_of_head? (by simpa [hkey] using isSpace_of_startsKey hstart)
  have hline :
      readStatement ('[' :: (writeKey name ++ ']' :: '\n' :: rest)) =
        some (.table ⟨[], name⟩, '\n' :: rest) := by
    rw [readStatement, hkeySpace, hpath, hclose]
    · rfl
    · intro _ hbracket
      rw [hkey] at hbracket
      exact hopen (List.cons.inj hbracket).1
  have hlines :
      readStatements ('[' :: (writeKey name ++ [']']) ++ '\n' :: rest) =
        some (.table ⟨[], name⟩ :: statements) :=
    readStatements_line (by simp)
      (skipBreaks_of_ne (by decide) (by decide) (by decide) (by decide) _)
      (by simpa using hline) hread
  simpa [writeHeader] using hlines

/-- A key with its value is read back up to the end of its line. -/
theorem readMember_writeEntry
    (name : String) {value : List Char} {v : Toml} (hvalue : ValueText value v)
    (rest : List Char) :
    readMember (some ∘ skipSpace) (readValue maxNesting)
        (writeKey name ++ ' ' :: '=' :: ' ' :: (value ++ '\n' :: rest)) =
      some ((⟨[], name⟩, v), '\n' :: rest) := by
  have hsign :
      skipSpace (' ' :: '=' :: ' ' :: (value ++ '\n' :: rest)) =
        '=' :: ' ' :: (value ++ '\n' :: rest) :=
    rfl
  have hpath := readKeyPath_writeKey name (' ' :: '=' :: ' ' :: (value ++ '\n' :: rest))
    (by simp [isBare]) (by simp [hsign])
  have hskip : skipSpace (' ' :: (value ++ '\n' :: rest)) = value ++ '\n' :: rest := by
    have hhead : ∀ c ∈ (value ++ '\n' :: rest).head?, isSpace c = false := by
      cases value with
      | nil => simp [isSpace]
      | cons c cs => simpa using hvalue.head
    exact skipSpace_of_head? hhead
  have hstay :
      skipSpace ('=' :: ' ' :: (value ++ '\n' :: rest)) = '=' :: ' ' :: (value ++ '\n' :: rest) :=
    rfl
  simp [readMember, hpath, hsign, hstay, behind?, hskip, hvalue.read]

/-- A key with its value stands in front of the statements on the lines that follow. -/
theorem readStatements_writeEntry
    (name : String) {value : List Char} {v : Toml} (hvalue : ValueText value v)
    {rest : List Char} {statements : List Statement}
    (hread : readStatements rest = some statements) :
    readStatements (writeEntry name value ++ rest) =
      some (.entry ⟨[], name⟩ v :: statements) := by
  obtain ⟨c, cs, hkey, hstart⟩ := exists_writeKey name
  have hopen : c ≠ '[' := ne_of_startsKey hstart rfl
  have hmember := readMember_writeEntry name hvalue rest
  rw [hkey, List.cons_append] at hmember
  have hline :
      readStatement (c :: (cs ++ ' ' :: '=' :: ' ' :: (value ++ '\n' :: rest))) =
        some (.entry ⟨[], name⟩ v, '\n' :: rest) := by
    rw [readStatement, hmember]
    · rfl
    · intro _ hbracket
      exact hopen (List.cons.inj hbracket).1
    · intro _ hbracket
      exact hopen (List.cons.inj hbracket).1
  have hlines :
      readStatements (c :: (cs ++ ' ' :: '=' :: ' ' :: value) ++ '\n' :: rest) =
        some (.entry ⟨[], name⟩ v :: statements) :=
    readStatements_line (by simp) (skipBreaks_of_startsKey hstart _)
      (by simpa using hline) hread
  simpa [writeEntry, hkey] using hlines

end Lines

section Documents

/-- The lines of keys with their values, and the entries that they describe. -/
inductive EntryLines : List Char → Entries → Prop
  | nil :
      EntryLines [] []
  | cons
      (name : String) {value text : List Char} {v : Toml} {entries : Entries}
      (hvalue : ValueText value v) (htext : EntryLines text entries) :
      EntryLines (writeEntry name value ++ text) ((name, v) :: entries)

/--
A document of tables with headers, and the names of these tables with their entries.  An
empty line stands between two tables.
-/
inductive Document : List Char → List (String × Entries) → Prop
  | last
      {name : String} {lines : List Char} {entries : Entries}
      (hlines : EntryLines lines entries) :
      Document (writeHeader name ++ lines) [(name, entries)]
  | more
      {name : String} {lines text : List Char} {entries : Entries}
      {tables : List (String × Entries)}
      (hlines : EntryLines lines entries) (htext : Document text tables) :
      Document (writeHeader name ++ lines ++ '\n' :: text) ((name, entries) :: tables)

/-- The statements of a table with a header of its own. -/
def tableStatements (table : String × Entries) : List Statement :=
  .table ⟨[], table.1⟩ :: table.2.map fun entry => .entry ⟨[], entry.1⟩ entry.2

/-- The lines of the entries of a table are read in front of what follows them. -/
theorem EntryLines.readStatements
    {lines : List Char} {entries : Entries} (hlines : EntryLines lines entries)
    {rest : List Char} {statements : List Statement}
    (hread : Toml.readStatements rest = some statements) :
    Toml.readStatements (lines ++ rest) =
      some ((entries.map fun entry => .entry ⟨[], entry.1⟩ entry.2) ++ statements) := by
  induction hlines with
  | nil =>
      exact hread
  | @cons name _ _ _ _ hvalue _ ih =>
      rw [List.append_assoc]
      exact readStatements_writeEntry name hvalue ih

/-- The lines of a document are read as its statements. -/
theorem Document.readStatements
    {text : List Char} {tables : List (String × Entries)} (hdocument : Document text tables) :
    Toml.readStatements text = some (tables.flatMap tableStatements) := by
  have hnil : Toml.readStatements [] = some [] := by
    rw [Toml.readStatements]
    rfl
  induction hdocument with
  | @last name _ _ hlines =>
      have hread := readStatements_writeHeader name (hlines.readStatements hnil)
      simpa [tableStatements] using hread
  | @more name _ _ _ _ hlines _ ih =>
      have hread := readStatements_writeHeader name
        (hlines.readStatements (readStatements_break ih))
      simpa [tableStatements] using hread

end Documents

section Assembly

/-- The entry of a document that a header and the lines below it make. -/
def headed (table : String × Entries) : String × Toml :=
  (table.1, .table .header table.2)

theorem lookup_eq_none
    {name : String} {entries : Entries} (hnew : name ∉ entries.map Prod.fst) :
    entries.lookup name = none := by
  rw [List.lookup_eq_none_iff]
  intro entry hmem
  have hne : name ≠ entry.1 := by
    rintro rfl
    exact hnew (List.mem_map_of_mem hmem)
  simpa using hne

theorem lookup_append_singleton
    {name : String} {before : Entries} (hname : name ∉ before.map Prod.fst) (v : Toml) :
    (before ++ [(name, v)]).lookup name = some v := by
  rw [List.lookup_append, lookup_eq_none hname]
  simp

theorem replaceEntry_append_singleton
    {name : String} {before : Entries} (hname : name ∉ before.map Prod.fst) (v w : Toml) :
    replaceEntry name w (before ++ [(name, v)]) = before ++ [(name, w)] := by
  have hbefore : ∀ entry ∈ before, (if entry.1 = name then (name, w) else entry) = entry := by
    intro entry hmem
    rw [if_neg]
    rintro rfl
    exact hname (List.mem_map_of_mem hmem)
  rw [replaceEntry, List.map_append, List.map_congr_left hbefore]
  simp

/-- A header with a new name puts an empty table behind the others. -/
theorem add?_table
    {name : String} {before : Entries} (hname : name ∉ before.map Prod.fst)
    (current : List String) :
    Draft.add? ⟨current, before⟩ (.table ⟨[], name⟩) =
      some ⟨[name], before ++ [headed (name, [])]⟩ := by
  simp [Draft.add?, openTable, changeAt, lookup_eq_none hname, KeyPath.names, headed]

/-- A new key below a header is put behind the others of its table. -/
theorem add?_entry
    {name key : String} {before entries : Entries} (hname : name ∉ before.map Prod.fst)
    (hkey : key ∉ entries.map Prod.fst) (v : Toml) :
    Draft.add? ⟨[name], before ++ [headed (name, entries)]⟩ (.entry ⟨[], key⟩ v) =
      some ⟨[name], before ++ [headed (name, entries ++ [(key, v)])]⟩ := by
  simp [Draft.add?, headed, changeAt, lookup_append_singleton hname, mayEnter, define,
    lookup_eq_none hkey, replaceEntry_append_singleton hname]

/-- The keys below a header are put behind the others of its table. -/
theorem foldlM_entries
    {name : String} {before : Entries} (hname : name ∉ before.map Prod.fst)
    {made more : Entries} (hkeys : (made.map Prod.fst ++ more.map Prod.fst).Nodup) :
    (more.map fun entry => Statement.entry ⟨[], entry.1⟩ entry.2).foldlM Draft.add?
        ⟨[name], before ++ [headed (name, made)]⟩ =
      some ⟨[name], before ++ [headed (name, made ++ more)]⟩ := by
  induction more generalizing made with
  | nil =>
      simp
  | cons entry more ih =>
      have hnew : entry.1 ∉ made.map Prod.fst := by
        intro hmem
        rw [List.nodup_append] at hkeys
        exact hkeys.2.2 _ hmem _ (by simp) rfl
      have hnext : ((made ++ [entry]).map Prod.fst ++ more.map Prod.fst).Nodup := by
        simpa using hkeys
      rw [List.map_cons, List.foldlM_cons, add?_entry hname hnew, Option.bind_eq_bind,
        Option.bind_some, ih hnext, List.append_assoc, List.singleton_append]

/-- The statements of tables with new names put these tables behind the others. -/
theorem foldlM_tables
    {before : Entries} {tables : List (String × Entries)}
    (hnames : (before.map Prod.fst ++ tables.map Prod.fst).Nodup)
    (hkeys : ∀ table ∈ tables, (table.2.map Prod.fst).Nodup) (current : List String) :
    ((tables.flatMap tableStatements).foldlM Draft.add? ⟨current, before⟩).map Draft.entries =
      some (before ++ tables.map headed) := by
  induction tables generalizing current before with
  | nil =>
      simp
  | cons table tables ih =>
      obtain ⟨name, entries⟩ := table
      have hname : name ∉ before.map Prod.fst := by
        intro hmem
        rw [List.nodup_append] at hnames
        exact hnames.2.2 _ hmem _ (by simp) rfl
      have hnext : ((before ++ [headed (name, entries)]).map Prod.fst ++
          tables.map Prod.fst).Nodup := by
        simpa [headed] using hnames
      have hmade :
          (entries.map fun entry => Statement.entry ⟨[], entry.1⟩ entry.2).foldlM Draft.add?
              ⟨[name], before ++ [headed (name, [])]⟩ =
            some ⟨[name], before ++ [headed (name, entries)]⟩ :=
        foldlM_entries hname (hkeys (name, entries) (by simp))
      rw [List.flatMap_cons, tableStatements, List.cons_append, List.foldlM_cons,
        add?_table hname, Option.bind_eq_bind, Option.bind_some, List.foldlM_append, hmade,
        Option.bind_eq_bind, Option.bind_some,
        ih hnext (fun table hmem => hkeys table (List.mem_cons_of_mem _ hmem))]
      simp

/-- The statements of tables with different names and different keys make these tables. -/
theorem ofStatements?_flatMap
    {tables : List (String × Entries)} (hnames : (tables.map Prod.fst).Nodup)
    (hkeys : ∀ table ∈ tables, (table.2.map Prod.fst).Nodup) :
    ofStatements? (tables.flatMap tableStatements) = some (tables.map headed) := by
  have hall : (([] : Entries).map Prod.fst ++ tables.map Prod.fst).Nodup := hnames
  exact foldlM_tables hall hkeys []

/-- A document of tables with different names and different keys is read back. -/
theorem Document.read?
    {text : List Char} {tables : List (String × Entries)} (hdocument : Document text tables)
    (hnames : (tables.map Prod.fst).Nodup)
    (hkeys : ∀ table ∈ tables, (table.2.map Prod.fst).Nodup) :
    Toml.read? (String.ofList text) = some (tables.map headed) := by
  have hmark : dropMark text = text := by
    cases hdocument <;> rfl
  rw [Toml.read?, String.toList_ofList, hmark, hdocument.readStatements]
  exact ofStatements?_flatMap hnames hkeys

end Assembly

end Toml

end FieldQuery
