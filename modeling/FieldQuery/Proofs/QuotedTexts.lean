import FieldQuery.Toml.Writing

/-!
# Texts between TOML quotes

A text is written between one of four kinds of quotes.  Whichever is chosen, reading
gives the text back and stops behind the closing quotes: the quotes that close it are
the first that can, and every escape means the character it stands for.

**Results.**

* `escapeChar_spells`: an escape is a spelling of its character;
* `splitBasic_append`, `splitBasicLines_append`, `splitLiteralLines_append`: a text ends
  at its closing quotes;
* `unescape_flatMap_escapeChar`, `unescape_escapeLines`: escapes are undone;
* `readLine?_writeBasic`, `readLine?_writeLiteral`: a text on one line is read back;
* `readQuote?_writeText`: a text between any quotes is read back.
-/

namespace FieldQuery

namespace Toml

section Characters

/-- How a character may stand between double quotes. -/
inductive Spells : List Char → Char → Prop
  | plain
      {c : Char}
      (hplain : isPlain c = true) (hquote : c ≠ '"') (hbackslash : c ≠ '\\') :
      Spells [c] c
  | letter
      {d c : Char}
      (hletter : letterEscape? d = some c) :
      Spells ['\\', d] c
  | code
      {ds : List Char} {c : Char}
      (hlength : ds.length = 4) (hdigits : ∀ d ∈ ds, isHexDigit d = true)
      (hcode : codePoint? ds = some c) :
      Spells ('\\' :: 'u' :: ds) c

/-- A spelling begins with no quote and no line break. -/
theorem Spells.exists_cons
    {text : List Char} {c : Char} (hspells : Spells text c) :
    ∃ d more, text = d :: more ∧ d ≠ '"' ∧ d ≠ '\n' ∧ d ≠ '\r' := by
  cases hspells with
  | plain hplain hquote _ =>
      refine ⟨c, [], rfl, hquote, ?_, ?_⟩
      · rintro rfl
        exact absurd hplain (by decide)
      · rintro rfl
        exact absurd hplain (by decide)
  | letter _ =>
      exact ⟨_, _, rfl, by decide⟩
  | code _ _ _ =>
      exact ⟨_, _, rfl, by decide⟩

theorem isPlain_of_not_isControl
    {c : Char} (hcontrol : isControl c = false) (hbreak : c ≠ '\n') :
    isPlain c = true := by
  by_cases htab : c = '\t'
  · simp [isPlain, htab]
  · simp only [isControl, htab, hbreak, ne_eq, not_false_eq_true, decide_true, Bool.and_true,
      Bool.or_eq_false_iff, decide_eq_false_iff_not] at hcontrol
    simp only [isPlain, htab, decide_false, Bool.false_or, Bool.and_eq_true, decide_eq_true_eq]
    exact ⟨by omega, hcontrol.2⟩

theorem codeEscape_of_lt :
    ∀ n < 128, isControl (Char.ofNat n) = true →
      (codeEscape (Char.ofNat n)).take 2 = ['\\', 'u'] ∧
      ((codeEscape (Char.ofNat n)).drop 2).length = 4 ∧
      ((codeEscape (Char.ofNat n)).drop 2).all isHexDigit = true ∧
      codePoint? ((codeEscape (Char.ofNat n)).drop 2) = some (Char.ofNat n) := by
  decide

/-- Four digits spell a control character. -/
theorem codeEscape_spells
    {c : Char} (hcontrol : isControl c = true) :
    Spells (codeEscape c) c := by
  have hlt : c.toNat < 128 := by
    simp only [isControl, Bool.or_eq_true, Bool.and_eq_true, decide_eq_true_eq] at hcontrol
    omega
  have hcode := codeEscape_of_lt c.toNat hlt
  rw [Char.ofNat_toNat] at hcode
  obtain ⟨htake, hlength, hdigits, hpoint⟩ := hcode hcontrol
  rw [← List.take_append_drop 2 (codeEscape c), htake]
  exact .code hlength (List.all_eq_true.1 hdigits) hpoint

/-- An escape is a spelling of its character. -/
theorem escapeChar_spells
    (c : Char) :
    Spells (escapeChar c) c := by
  unfold escapeChar
  split
  · rename_i h
    exact .letter (by rw [h]; rfl)
  split
  · rename_i h
    exact .letter (by rw [h]; rfl)
  split
  · rename_i h
    exact .letter (by rw [h]; rfl)
  split
  · rename_i h
    exact .letter (by rw [h]; rfl)
  split
  · rename_i h
    exact .letter (by rw [h]; rfl)
  split
  · rename_i h
    exact .letter (by rw [h]; rfl)
  split
  · rename_i h
    exact .letter (by rw [h]; rfl)
  split
  · rename_i hcontrol
    exact codeEscape_spells hcontrol
  · rename_i hbreak _ _ hquote hbackslash hcontrol
    exact .plain (isPlain_of_not_isControl (Bool.not_eq_true _ ▸ hcontrol) hbreak) hquote
      hbackslash

theorem ne_of_isHexDigit
    {d : Char} (hdigit : isHexDigit d = true) :
    d ≠ '"' ∧ d ≠ '\\' := by
  constructor
  · rintro rfl
    revert hdigit
    decide
  · rintro rfl
    revert hdigit
    decide

/-- The letters of escapes. -/
theorem mem_of_letterEscape?
    {d c : Char} (hletter : letterEscape? d = some c) :
    d ∈ ['b', 't', 'n', 'f', 'r', 'e', '"', '\\'] := by
  refine Decidable.byContradiction fun hother => ?_
  simp only [List.mem_cons, List.not_mem_nil, or_false, not_or] at hother
  simp [letterEscape?, hother] at hletter

end Characters

section Closing

/-- The parts of a cut with a text in front of the first. -/
def infront (text : List Char) (cut : List Char × List Char) : List Char × List Char :=
  (text ++ cut.1, cut.2)

theorem map_infront_map_infront
    (text more : List Char) (cut : Option (List Char × List Char)) :
    (cut.map (infront more)).map (infront text) = cut.map (infront (text ++ more)) := by
  cases cut <;> simp [infront]

/-- Characters that are no quotes and no backslashes do not close a text. -/
theorem splitBasic_plain
    {text : List Char} (htext : ∀ c ∈ text, c ≠ '"' ∧ c ≠ '\\') (rest : List Char) :
    splitBasic (text ++ rest) = (splitBasic rest).map (infront text) := by
  induction text with
  | nil =>
      rw [List.nil_append]
      cases splitBasic rest <;> rfl
  | cons c text ih =>
      obtain ⟨hquote, hbackslash⟩ := htext c (by simp)
      rw [List.cons_append, splitBasic]
      · rw [ih fun d hmem => htext d (List.mem_cons_of_mem _ hmem)]
        exact map_infront_map_infront [c] text _
      · exact hquote
      · intro _ _ hc
        exact absurd hc hbackslash

/-- A spelling does not close a text. -/
theorem splitBasic_spelling
    {text : List Char} {c : Char} (hspells : Spells text c) (rest : List Char) :
    splitBasic (text ++ rest) = (splitBasic rest).map (infront text) := by
  cases hspells with
  | plain _ hquote hbackslash =>
      exact splitBasic_plain (by simp [hquote, hbackslash]) rest
  | letter _ =>
      rfl
  | @code ds c _ hdigits _ =>
      have hds := splitBasic_plain (fun d hmem => ne_of_isHexDigit (hdigits d hmem)) rest
      rw [List.cons_append, List.cons_append, splitBasic, hds]
      exact map_infront_map_infront ['\\', 'u'] ds _

/-- An escaped text ends at the quote behind it. -/
theorem splitBasic_append
    (cs rest : List Char) :
    splitBasic (cs.flatMap escapeChar ++ '"' :: rest) = some (cs.flatMap escapeChar, rest) := by
  induction cs with
  | nil =>
      rfl
  | cons c cs ih =>
      rw [List.flatMap_cons, List.append_assoc, splitBasic_spelling (escapeChar_spells c), ih]
      rfl

theorem splitLiteral_append
    {cs : List Char} (hcs : '\'' ∉ cs) (rest : List Char) :
    splitLiteral (cs ++ '\'' :: rest) = some (cs, rest) := by
  induction cs with
  | nil =>
      rfl
  | cons c cs ih =>
      simp only [List.mem_cons, not_or] at hcs
      rw [List.cons_append, splitLiteral, ih hcs.2]
      · rfl
      · exact fun hc => hcs.1 hc.symm

/--
A text that may stand between three quotes of a kind, behind `run` such quotes: it does
not hold three in a row.  A backslash may take the meaning from the character behind it.
-/
inductive Unbroken (quote : Char) (escapes : Bool) : Nat → List Char → Prop
  | nil
      {run : Nat} :
      Unbroken quote escapes run []
  | other
      {run : Nat} {c : Char} {text : List Char}
      (hc : c ≠ quote) (hescape : escapes = true → c ≠ '\\')
      (htext : Unbroken quote escapes 0 text) :
      Unbroken quote escapes run (c :: text)
  | escape
      {run : Nat} {c : Char} {text : List Char}
      (hescapes : escapes = true)
      (htext : Unbroken quote escapes 0 text) :
      Unbroken quote escapes run ('\\' :: c :: text)
  | quote
      {run : Nat} {text : List Char}
      (hrun : run < 2)
      (htext : Unbroken quote escapes (run + 1) text) :
      Unbroken quote escapes run (quote :: text)

/-- One or two quotes in front of another character belong to the text. -/
theorem splitBasicLines_quotes
    {run : Nat} (hrun : run ≤ 2) {c : Char} (hc : c ≠ '"') (rest : List Char) :
    splitBasicLines (List.replicate run '"' ++ c :: rest) =
      (splitBasicLines (c :: rest)).map (infront (List.replicate run '"')) := by
  have hone : splitBasicLines ('"' :: c :: rest) =
      (splitBasicLines (c :: rest)).map (infront ['"']) := by
    rw [splitBasicLines]
    · rfl
    all_goals simp [hc]
  rcases run with _ | _ | _ | run
  · rw [List.replicate_zero, List.nil_append]
    cases splitBasicLines (c :: rest) <;> rfl
  · exact hone
  · have htwo : splitBasicLines ('"' :: '"' :: c :: rest) =
        (splitBasicLines ('"' :: c :: rest)).map (infront ['"']) := by
      rw [splitBasicLines]
      · rfl
      all_goals simp [hc]
    rw [hone, map_infront_map_infront] at htwo
    exact htwo
  · omega

/-- A text without three double quotes in a row ends at the first three in a row. -/
theorem splitBasicLines_append
    {run : Nat} {text : List Char} (htext : Unbroken '"' true run text) (hrun : run ≤ 2)
    {rest : List Char} (hrest : rest.head? ≠ some '"') :
    splitBasicLines (List.replicate run '"' ++ (text ++ '"' :: '"' :: '"' :: rest)) =
      some (List.replicate run '"' ++ text, rest) := by
  -- Quotes that were met stay in front until it is known that no third one follows.
  induction htext with
  | @nil run =>
      have hopen : ∀ more, rest ≠ '"' :: more := by
        rintro more rfl
        exact hrest rfl
      rcases run with _ | _ | _ | run
      · change splitBasicLines ('"' :: '"' :: '"' :: rest) = some ([], rest)
        rw [splitBasicLines]
        all_goals simp [hopen]
      · change splitBasicLines ('"' :: '"' :: '"' :: '"' :: rest) = some (['"'], rest)
        rw [splitBasicLines]
        simp [hopen]
      · rfl
      · omega
  | @other run c text hc hescape htext ih =>
      have hread := ih (Nat.zero_le 2)
      rw [List.replicate_zero, List.nil_append, List.nil_append] at hread
      rw [List.cons_append, splitBasicLines_quotes hrun hc, splitBasicLines, hread]
      · rfl
      all_goals simp [hc, hescape rfl]
  | @escape run c text hescapes htext ih =>
      have hread := ih (Nat.zero_le 2)
      rw [List.replicate_zero, List.nil_append, List.nil_append] at hread
      rw [List.cons_append, List.cons_append, splitBasicLines_quotes hrun (by decide),
        splitBasicLines, hread]
      rfl
  | @quote run text hlt htext ih =>
      have hread := ih hlt
      rw [List.replicate_succ', List.append_assoc, List.append_assoc] at hread
      exact hread

/-- One or two single quotes in front of another character belong to the text. -/
theorem splitLiteralLines_quotes
    {run : Nat} (hrun : run ≤ 2) {c : Char} (hc : c ≠ '\'') (rest : List Char) :
    splitLiteralLines (List.replicate run '\'' ++ c :: rest) =
      (splitLiteralLines (c :: rest)).map (infront (List.replicate run '\'')) := by
  have hone : splitLiteralLines ('\'' :: c :: rest) =
      (splitLiteralLines (c :: rest)).map (infront ['\'']) := by
    rw [splitLiteralLines]
    · rfl
    all_goals simp [hc]
  rcases run with _ | _ | _ | run
  · rw [List.replicate_zero, List.nil_append]
    cases splitLiteralLines (c :: rest) <;> rfl
  · exact hone
  · have htwo : splitLiteralLines ('\'' :: '\'' :: c :: rest) =
        (splitLiteralLines ('\'' :: c :: rest)).map (infront ['\'']) := by
      rw [splitLiteralLines]
      · rfl
      all_goals simp [hc]
    rw [hone, map_infront_map_infront] at htwo
    exact htwo
  · omega

/-- A text without three single quotes in a row ends at the first three in a row. -/
theorem splitLiteralLines_append
    {run : Nat} {text : List Char} (htext : Unbroken '\'' false run text) (hrun : run ≤ 2)
    {rest : List Char} (hrest : rest.head? ≠ some '\'') :
    splitLiteralLines (List.replicate run '\'' ++ (text ++ '\'' :: '\'' :: '\'' :: rest)) =
      some (List.replicate run '\'' ++ text, rest) := by
  induction htext with
  | @nil run =>
      have hopen : ∀ more, rest ≠ '\'' :: more := by
        rintro more rfl
        exact hrest rfl
      rcases run with _ | _ | _ | run
      · change splitLiteralLines ('\'' :: '\'' :: '\'' :: rest) = some ([], rest)
        rw [splitLiteralLines]
        all_goals simp [hopen]
      · change splitLiteralLines ('\'' :: '\'' :: '\'' :: '\'' :: rest) = some (['\''], rest)
        rw [splitLiteralLines]
        simp [hopen]
      · rfl
      · omega
  | @other run c text hc _ htext ih =>
      have hread := ih (Nat.zero_le 2)
      rw [List.replicate_zero, List.nil_append, List.nil_append] at hread
      rw [List.cons_append, splitLiteralLines_quotes hrun hc, splitLiteralLines, hread]
      · rfl
      all_goals simp [hc]
  | escape hescapes _ _ =>
      cases hescapes
  | @quote run text hlt htext ih =>
      have hread := ih hlt
      rw [List.replicate_succ', List.append_assoc, List.append_assoc] at hread
      exact hread

theorem unbroken_append
    {front text : List Char} (hfront : ∀ c ∈ front, c ≠ '"' ∧ c ≠ '\\')
    (htext : Unbroken '"' true 0 text) :
    Unbroken '"' true 0 (front ++ text) := by
  induction front with
  | nil =>
      exact htext
  | cons c front ih =>
      obtain ⟨hquote, hbackslash⟩ := hfront c (by simp)
      exact .other hquote (fun _ => hbackslash)
        (ih fun d hmem => hfront d (List.mem_cons_of_mem _ hmem))

/-- A spelling keeps three quotes from standing in a row. -/
theorem Spells.unbroken
    {spelling text : List Char} {c : Char} (hspells : Spells spelling c) {run : Nat}
    (htext : Unbroken '"' true 0 text) :
    Unbroken '"' true run (spelling ++ text) := by
  cases hspells with
  | plain _ hquote hbackslash =>
      exact .other hquote (fun _ => hbackslash) htext
  | letter _ =>
      exact .escape rfl htext
  | @code ds c _ hdigits _ =>
      exact .escape rfl (unbroken_append (fun d hmem => ne_of_isHexDigit (hdigits d hmem)) htext)

/-- The lines of an escaped text hold no three quotes in a row. -/
theorem unbroken_escapeLines
    (cs : List Char) {run : Nat} (hrun : run ≤ 2) :
    Unbroken '"' true run (escapeLines run cs) := by
  induction cs generalizing run with
  | nil =>
      exact .nil
  | cons c cs ih =>
      rw [escapeLines]
      split
      · exact .other (by decide) (fun _ => by decide) (ih (Nat.zero_le 2))
      split
      · rename_i hquote
        exact .quote hquote.2 (ih hquote.2)
      · exact (escapeChar_spells c).unbroken (ih (Nat.zero_le 2))

/-- What follows a part of a text without three quotes in a row has none either. -/
theorem hasTriple_of_append
    {quote : Char} {front cs : List Char} (htriple : hasTriple quote (front ++ cs) = false) :
    hasTriple quote cs = false := by
  induction front with
  | nil =>
      exact htriple
  | cons c front ih =>
      refine ih ?_
      rw [List.cons_append] at htriple
      generalize front ++ cs = text at htriple
      rcases text with _ | ⟨a, _ | ⟨b, more⟩⟩
      · rfl
      · rfl
      · rw [hasTriple, Bool.or_eq_false_iff] at htriple
        exact htriple.2

/-- A text without three quotes in a row, those in front of it included, is unbroken. -/
theorem unbroken_of_hasTriple
    {quote : Char} {run : Nat} {cs : List Char}
    (htriple : hasTriple quote (List.replicate run quote ++ cs) = false) (hrun : run ≤ 2) :
    Unbroken quote false run cs := by
  induction cs generalizing run with
  | nil =>
      exact .nil
  | cons c cs ih =>
      by_cases hc : c = quote
      · subst hc
        have hlt : run < 2 := by
          refine Nat.lt_of_le_of_ne hrun fun htwo => ?_
          subst htwo
          simp [hasTriple, List.replicate] at htriple
        refine .quote hlt (ih ?_ hlt)
        rw [List.replicate_succ', List.append_assoc]
        exact htriple
      · refine .other hc (by simp) (ih ?_ (Nat.zero_le 2))
        rw [List.append_cons] at htriple
        exact hasTriple_of_append htriple

end Closing

section Escapes

/-- A spelling means its character. -/
theorem unescape_spelling
    {text : List Char} {c : Char} (hspells : Spells text c) (lines : Bool) (rest : List Char) :
    unescape lines false (text ++ rest) = (unescape lines false rest).map (c :: ·) := by
  cases hspells with
  | plain hplain hquote hbackslash =>
      have hreturn : c ≠ '\r' := by
        rintro rfl
        revert hplain
        decide
      rw [List.singleton_append, unescape]
      · simp [hplain, hbackslash]
      all_goals simp [hbackslash, hreturn]
  | @letter d c hletter =>
      have hmem := mem_of_letterEscape? hletter
      simp only [List.mem_cons, List.not_mem_nil, or_false] at hmem
      have hcode : d ≠ 'x' ∧ d ≠ 'u' ∧ d ≠ 'U' := by
        rcases hmem with rfl | rfl | rfl | rfl | rfl | rfl | rfl | rfl <;> decide
      rw [List.cons_append, List.singleton_append, unescape]
      · have hblank : blankToBreak (d :: rest) = false := by
          rcases hmem with rfl | rfl | rfl | rfl | rfl | rfl | rfl | rfl <;> rfl
        rw [hblank, Bool.and_false, if_neg Bool.false_ne_true, hletter]
      all_goals simp [hcode]
  | @code ds c hlength hdigits hcode =>
      match ds, hlength with
      | [x, y, z, w], _ =>
          rw [List.cons_append, List.cons_append, List.cons_append, List.cons_append,
            List.cons_append, List.cons_append, List.nil_append, unescape, hcode]

/-- Escapes are undone. -/
theorem unescape_flatMap_escapeChar
    (lines : Bool) (cs : List Char) :
    unescape lines false (cs.flatMap escapeChar) = some cs := by
  induction cs with
  | nil =>
      rfl
  | cons c cs ih =>
      rw [List.flatMap_cons, unescape_spelling (escapeChar_spells c), ih]
      rfl

/-- Escapes among lines are undone. -/
theorem unescape_escapeLines
    (run : Nat) (cs : List Char) :
    unescape true false (escapeLines run cs) = some cs := by
  induction cs generalizing run with
  | nil =>
      rfl
  | cons c cs ih =>
      rw [escapeLines]
      split
      · rename_i hbreak
        rw [unescape, ih]
        · simp [hbreak]
        all_goals simp
      split
      · rename_i hquote
        rw [unescape, ih]
        · simp [hquote.1, isPlain]
        all_goals simp
      · rw [unescape_spelling (escapeChar_spells c), ih]
        rfl

theorem allPlain_of_forall
    {lines : Bool} {cs : List Char}
    (hcs : ∀ c ∈ cs, c ≠ '\r' ∧ ((lines && c = '\n') || isPlain c) = true) :
    allPlain lines cs = true := by
  induction cs with
  | nil =>
      rfl
  | cons c cs ih =>
      obtain ⟨hreturn, hc⟩ := hcs c (by simp)
      rw [allPlain, hc, Bool.true_and]
      · exact ih fun d hmem => hcs d (List.mem_cons_of_mem _ hmem)
      · intro _ h
        exact absurd h hreturn

end Escapes

section OneLine

/-- A text between double quotes on one line is read back. -/
theorem readLine?_writeBasic
    (cs rest : List Char) :
    readLine? (writeBasic cs ++ rest) = some (cs, rest) := by
  have hread : readLine? ('"' :: (cs.flatMap escapeChar ++ '"' :: rest)) = some (cs, rest) := by
    simp [readLine?, splitBasic_append, unescape_flatMap_escapeChar]
  simpa [writeBasic] using hread

/-- A text that fits between single quotes on one line is read back. -/
theorem readLine?_writeLiteral
    {cs : List Char} (hfits : fitsLiteral cs = true) (rest : List Char) :
    readLine? (writeLiteral cs ++ rest) = some (cs, rest) := by
  simp only [fitsLiteral, List.all_eq_true, Bool.and_eq_true, Bool.not_eq_true',
    decide_eq_true_eq] at hfits
  have hquote : '\'' ∉ cs := fun hmem => (hfits _ hmem).2 rfl
  have hplain : allPlain false cs = true := by
    refine allPlain_of_forall fun c hmem => ⟨?_, ?_⟩
    · rintro rfl
      exact absurd (hfits _ hmem).1.1 (by decide)
    · simp [isPlain_of_not_isControl (hfits c hmem).1.1 (hfits c hmem).1.2]
  have hread : readLine? ('\'' :: (cs ++ '\'' :: rest)) = some (cs, rest) := by
    simp [readLine?, splitLiteral_append hquote, hplain]
  simpa [writeLiteral] using hread

/-- What does not open with three quotes is read as a text on one line. -/
theorem readQuote?_of_ne
    {cs : List Char} (hbasic : ∀ more, cs ≠ '"' :: '"' :: '"' :: more)
    (hliteral : ∀ more, cs ≠ '\'' :: '\'' :: '\'' :: more) :
    readQuote? cs = readLine? cs := by
  rw [readQuote?]
  · exact hbasic
  · exact hliteral

theorem readQuote?_writeBasic
    (cs : List Char) {rest : List Char} (hrest : rest.head? ≠ some '"') :
    readQuote? (writeBasic cs ++ rest) = some (cs, rest) := by
  rw [readQuote?_of_ne, readLine?_writeBasic]
  · intro more hopen
    cases cs with
    | nil =>
        have hquote : rest = '"' :: more := by simpa [writeBasic] using hopen
        simp [hquote] at hrest
    | cons c cs =>
        obtain ⟨d, spelling, hspelling, hd, _⟩ := (escapeChar_spells c).exists_cons
        simp [writeBasic, hspelling, hd] at hopen
  · simp [writeBasic]

theorem readQuote?_writeLiteral
    {cs : List Char} (hfits : fitsLiteral cs = true)
    {rest : List Char} (hrest : rest.head? ≠ some '\'') :
    readQuote? (writeLiteral cs ++ rest) = some (cs, rest) := by
  rw [readQuote?_of_ne, readLine?_writeLiteral hfits]
  · simp [writeLiteral]
  · intro more hopen
    cases cs with
    | nil =>
        have hquote : rest = '\'' :: more := by simpa [writeLiteral] using hopen
        simp [hquote] at hrest
    | cons c cs =>
        have hc : c ≠ '\'' := by
          rintro rfl
          simp [fitsLiteral] at hfits
        simp [writeLiteral, hc] at hopen

end OneLine

section ManyLines

/-- The line break behind opening quotes is left out, and no other is. -/
theorem dropFirstBreak_firstBreak
    {cs body : List Char}
    (hbody : '\n' ∉ cs → body.head? ≠ some '\n' ∧ body.head? ≠ some '\r') :
    dropFirstBreak (firstBreak cs ++ body) = body := by
  unfold firstBreak
  split
  · rfl
  · rename_i hbreak
    obtain ⟨hbreak, hreturn⟩ := hbody hbreak
    rw [List.nil_append, dropFirstBreak]
    · rintro more rfl
      exact hbreak rfl
    · rintro more rfl
      exact hreturn rfl

theorem head?_escapeLines
    {cs : List Char} (hbreak : '\n' ∉ cs) (more : List Char) :
    (escapeLines 0 cs ++ '"' :: more).head? ≠ some '\n' ∧
      (escapeLines 0 cs ++ '"' :: more).head? ≠ some '\r' := by
  cases cs with
  | nil =>
      simp [escapeLines]
  | cons c cs =>
      have hc : c ≠ '\n' := by
        rintro rfl
        simp at hbreak
      rw [escapeLines, if_neg hc]
      split
      · simp
      · obtain ⟨d, spelling, hspelling, _, hd⟩ := (escapeChar_spells c).exists_cons
        simpa [hspelling] using hd

/-- A text on several lines between double quotes is read back. -/
theorem readQuote?_writeBasicLines
    (cs : List Char) {rest : List Char} (hrest : rest.head? ≠ some '"') :
    readQuote? (writeBasicLines cs ++ rest) = some (cs, rest) := by
  have hdrop := dropFirstBreak_firstBreak fun hbreak : '\n' ∉ cs =>
    head?_escapeLines hbreak ('"' :: '"' :: rest)
  have hsplit := splitBasicLines_append (unbroken_escapeLines cs (Nat.zero_le 2))
    (Nat.zero_le 2) hrest
  rw [List.replicate_zero, List.nil_append, List.nil_append] at hsplit
  have hwritten :
      writeBasicLines cs ++ rest =
        '"' :: '"' :: '"' ::
          (firstBreak cs ++ (escapeLines 0 cs ++ '"' :: '"' :: '"' :: rest)) := by
    simp [writeBasicLines]
  rw [hwritten, readQuote?, hdrop, hsplit]
  simp [unescape_escapeLines]

/-- A text on several lines that fits between single quotes is read back. -/
theorem readQuote?_writeLiteralLines
    {cs : List Char} (hfits : fitsLiteralLines cs = true)
    {rest : List Char} (hrest : rest.head? ≠ some '\'') :
    readQuote? (writeLiteralLines cs ++ rest) = some (cs, rest) := by
  simp only [fitsLiteralLines, Bool.and_eq_true, List.all_eq_true, Bool.not_eq_true'] at hfits
  obtain ⟨hcontrol, htriple⟩ := hfits
  have hreturn : '\r' ∉ cs := fun hmem => absurd (hcontrol _ hmem) (by decide)
  have hplain : allPlain true cs = true := by
    refine allPlain_of_forall fun c hmem => ⟨?_, ?_⟩
    · rintro rfl
      exact hreturn hmem
    · by_cases hbreak : c = '\n'
      · simp [hbreak]
      · simp [isPlain_of_not_isControl (hcontrol c hmem) hbreak]
  have hdrop :
      dropFirstBreak (firstBreak cs ++ (cs ++ '\'' :: '\'' :: '\'' :: rest)) =
        cs ++ '\'' :: '\'' :: '\'' :: rest := by
    refine dropFirstBreak_firstBreak fun hbreak => ?_
    cases cs with
    | nil =>
        simp
    | cons c cs =>
        simp only [List.mem_cons, not_or] at hbreak hreturn
        simp [Ne.symm hbreak.1, Ne.symm hreturn.1]
  have hsplit := splitLiteralLines_append
    (unbroken_of_hasTriple (by simpa using htriple) (Nat.zero_le 2)) (Nat.zero_le 2) hrest
  rw [List.replicate_zero, List.nil_append, List.nil_append] at hsplit
  have hwritten :
      writeLiteralLines cs ++ rest =
        '\'' :: '\'' :: '\'' ::
          (firstBreak cs ++ (cs ++ '\'' :: '\'' :: '\'' :: rest)) := by
    simp [writeLiteralLines]
  rw [hwritten, readQuote?, hdrop, hsplit]
  simp [hplain]

end ManyLines

/-- A text is read back from between the quotes that were chosen for it. -/
theorem readQuote?_writeText
    (s : String) {rest : List Char}
    (hdouble : rest.head? ≠ some '"') (hsingle : rest.head? ≠ some '\'') :
    readQuote? (writeText s ++ rest) = some (s.toList, rest) := by
  unfold writeText
  dsimp only
  split
  · exact readQuote?_writeBasic _ hdouble
  split
  · rename_i hfits
    exact readQuote?_writeLiteral hfits hsingle
  split
  · exact readQuote?_writeBasicLines _ hdouble
  split
  · rename_i hfits
    exact readQuote?_writeLiteralLines hfits hsingle
  split
  · exact readQuote?_writeBasicLines _ hdouble
  · exact readQuote?_writeBasic _ hdouble

end Toml

end FieldQuery
