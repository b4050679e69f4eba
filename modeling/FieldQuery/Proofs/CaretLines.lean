import FieldQuery.Proofs.ErrorPlaces

/-!
# Where the caret of a syntax error stands

A syntax error is printed as its message, the query and a caret, each on a line of its
own and the last two behind two blanks.  Before the caret there are as many blanks more
as the query has characters before the fragment.  So the caret stands right below the
fragment if the query is a single line; below a query of several lines it stands under
the last of them, in the column of a place that is counted from the first one.

**Results.**

* `Cursor.line_after`, `Cursor.column_after_lt`: where a text ends on a page;
* `SyntaxError.caret_eq`: where the caret is printed;
* `SyntaxError.caret_eq_below_iff`: when it is right below a character of the query;
* `caret_below_fragment_iff`: every error of a query.
-/

namespace FieldQuery

section Pages

/-- A place on a page: the lines above it, and the characters before it on its line. -/
structure Cursor where
  line : Nat
  column : Nat
deriving DecidableEq, Repr

namespace Cursor

/-- The place behind a character. -/
def step (k : Cursor) (c : Char) : Cursor :=
  if c = '\n' then ⟨k.line + 1, 0⟩ else ⟨k.line, k.column + 1⟩

/-- The place behind a text that is printed from a place on. -/
def after (k : Cursor) (cs : List Char) : Cursor :=
  cs.foldl step k

/-- The place right below. -/
def below (k : Cursor) : Cursor :=
  ⟨k.line + 1, k.column⟩

@[simp] theorem after_nil (k : Cursor) :
    k.after [] = k := by
  rfl

@[simp] theorem after_cons (k : Cursor) (c : Char) (cs : List Char) :
    k.after (c :: cs) = (k.step c).after cs := by
  rfl

@[simp] theorem after_append (k : Cursor) (cs ds : List Char) :
    k.after (cs ++ ds) = (k.after cs).after ds := by
  exact List.foldl_append

@[simp] theorem step_break (k : Cursor) :
    k.step '\n' = ⟨k.line + 1, 0⟩ := by
  rfl

theorem step_of_ne
    {c : Char} (hc : c ≠ '\n') (k : Cursor) :
    k.step c = ⟨k.line, k.column + 1⟩ := by
  exact if_neg hc

/-- A text goes on by as many lines as it has line breaks. -/
theorem line_after
    (k : Cursor) (cs : List Char) :
    (k.after cs).line = k.line + cs.count '\n' := by
  induction cs generalizing k with
  | nil =>
      rfl
  | cons c cs ih =>
      rw [after_cons, ih]
      by_cases hc : c = '\n'
      · subst hc
        rw [step_break, List.count_cons_self, Nat.add_assoc, Nat.add_comm 1]
      · rw [step_of_ne hc, List.count_cons_of_ne hc]

/-- A text without line breaks stays on its line. -/
theorem after_of_not_mem
    {cs : List Char} (hcs : '\n' ∉ cs) (k : Cursor) :
    k.after cs = ⟨k.line, k.column + cs.length⟩ := by
  induction cs generalizing k with
  | nil =>
      rfl
  | cons c cs ih =>
      obtain ⟨hc, hcs⟩ := List.ne_and_not_mem_of_not_mem_cons hcs
      rw [after_cons, step_of_ne hc.symm, ih hcs, List.length_cons]
      dsimp only
      rw [Nat.add_assoc, Nat.add_comm 1]

theorem column_after_le
    (k : Cursor) (cs : List Char) :
    (k.after cs).column ≤ k.column + cs.length := by
  induction cs generalizing k with
  | nil =>
      exact Nat.le_refl _
  | cons c cs ih =>
      have hrest := ih (k.step c)
      rw [after_cons, List.length_cons]
      by_cases hc : c = '\n'
      · subst hc
        rw [step_break] at hrest ⊢
        dsimp only at hrest
        omega
      · rw [step_of_ne hc] at hrest ⊢
        dsimp only at hrest
        omega

/-- A line break takes a text back to the front of a line. -/
theorem column_after_lt
    {cs : List Char} (hcs : '\n' ∈ cs) (k : Cursor) :
    (k.after cs).column < k.column + cs.length := by
  obtain ⟨front, rest, rfl⟩ := List.append_of_mem hcs
  have hrest := column_after_le ((k.after front).step '\n') rest
  rw [after_append, after_cons]
  simp only [step_break, List.length_append, List.length_cons] at hrest ⊢
  omega

end Cursor

end Pages

section Carets

namespace SyntaxError

/-- What is printed before the query. -/
def beforeQuery (e : SyntaxError) : List Char :=
  ("query syntax error: " ++ e.message).toList ++ ['\n', ' ', ' ']

/-- What is printed before the caret. -/
def beforeCaret (e : SyntaxError) : List Char :=
  e.beforeQuery ++ (e.query.toList ++ ('\n' :: ' ' :: ' ' :: List.replicate e.column ' '))

/-- The place of the caret. -/
def caret (e : SyntaxError) : Cursor :=
  Cursor.after ⟨0, 0⟩ e.beforeCaret

/-- The place of the character of the query that is behind `front` there. -/
def printed (e : SyntaxError) (front : List Char) : Cursor :=
  Cursor.after ⟨0, 0⟩ (e.beforeQuery ++ front)

variable {e : SyntaxError} {front rest : List Char}

theorem exists_display_eq
    (e : SyntaxError) :
    ∃ hint, e.display.toList = e.beforeCaret ++ '^' :: hint := by
  unfold display beforeCaret beforeQuery
  cases e.hint? with
  | none =>
      exact ⟨[], by simp⟩
  | some hint =>
      exact ⟨("\nhint: " ++ hint).toList, by simp⟩

/-- The query is printed behind two blanks. -/
theorem printed_eq
    (e : SyntaxError) (front : List Char) :
    ∃ line, e.printed front = Cursor.after ⟨line, 2⟩ front := by
  unfold printed beforeQuery
  rw [Cursor.after_append, Cursor.after_append]
  exact ⟨_, rfl⟩

/-- Before the caret there are two blanks and one for each character before the position. -/
theorem column_eq
    (hquery : e.query.toList = front ++ rest) (hposition : Text.byteLength front = e.position) :
    e.column = front.length := by
  have hbytes : Text.byteLength front ≤ Text.byteLength (front ++ rest) := by
    rw [Text.byteLength_append]
    omega
  unfold column
  simp only [hquery, ← hposition, min_eq_left hbytes, Text.splitAt?_append]

/-- **The caret** is on the line below the last one of the query. -/
theorem caret_eq
    (e : SyntaxError) :
    e.caret = ⟨(e.printed e.query.toList).line + 1, 2 + e.column⟩ := by
  have hblanks : '\n' ∉ List.replicate e.column ' ' := by
    simp
  unfold caret printed beforeCaret
  rw [← List.append_assoc, Cursor.after_append]
  simp only [Cursor.after_cons, Cursor.step_break, Cursor.after_of_not_mem hblanks,
    List.length_replicate]
  rfl

/-- The caret is right below the character at its position just if the query is one line. -/
theorem caret_eq_below_iff
    {c : Char} (hquery : e.query.toList = front ++ c :: rest)
    (hposition : Text.byteLength front = e.position) :
    e.caret = (e.printed front).below ↔ '\n' ∉ e.query.toList := by
  obtain ⟨line, hfront⟩ := e.printed_eq front
  have hwhole : e.printed e.query.toList = (e.printed front).after (c :: rest) := by
    rw [hquery, printed, ← List.append_assoc, Cursor.after_append]
    rfl
  have hcaret :
      e.caret = ⟨(e.printed front).line + (c :: rest).count '\n' + 1, 2 + front.length⟩ := by
    rw [caret_eq, hwhole, Cursor.line_after, column_eq hquery hposition]
  rw [hcaret, hquery, List.mem_append, hfront]
  constructor
  · intro hbelow
    obtain ⟨hline, hcolumn⟩ := Cursor.mk.inj hbelow
    rintro (hbreak | hbreak)
    · exact absurd hcolumn (Cursor.column_after_lt hbreak ⟨line, 2⟩).ne'
    · have hcount := List.count_pos_iff.2 hbreak
      omega
  · intro hbreak
    obtain ⟨hbefore, hbehind⟩ := not_or.1 hbreak
    rw [Cursor.after_of_not_mem hbefore, List.count_eq_zero.2 hbehind]
    rfl

end SyntaxError

/--
**The caret stands right below the fragment exactly if the query is one line.**  It is
printed on the line below the last one of the query, behind two blanks and one for each
character before the fragment, and that is the place below the fragment's first
character just if there is no line break in the query.
-/
theorem caret_below_fragment_iff
    (limits : Limits) (query : String) (err : SyntaxError) (hquery : query ≠ "")
    (herr : tokenize limits query = .error err ∨ parse limits query = .error err) :
    ∃ front c rest hint,
      query.toList = front ++ c :: rest ∧
      Text.byteLength front = err.position ∧
      err.fragment.toList.head? = some c ∧
      err.display.toList = err.beforeCaret ++ '^' :: hint ∧
      err.beforeCaret = err.beforeQuery ++
        (query.toList ++ ('\n' :: ' ' :: ' ' :: List.replicate front.length ' ')) ∧
      (err.caret = (err.printed front).below ↔ '\n' ∉ query.toList) := by
  have hpoints : err.PointsInto query := by
    rcases herr with herr | herr
    · obtain ⟨located, hlex, rfl⟩ := tokenize_eq_error_iff.1 herr
      exact Located.toError_pointsInto (lex_error_within hlex)
    · obtain ⟨located, hread, rfl⟩ := parse_eq_error_iff.1 herr
      exact read_error_pointsInto hread
  obtain ⟨before, behind, hplace, hposition⟩ := hpoints.place
  obtain ⟨hint, hdisplay⟩ := err.exists_display_eq
  obtain ⟨c, cs, hfragment⟩ : ∃ c cs, err.fragment.toList = c :: cs := by
    refine List.exists_cons_of_ne_nil fun hnil => ?_
    exact hquery (hpoints.nonempty (String.toList_eq_nil_iff.1 hnil))
  have hseams : query.toList = before.toList ++ c :: (cs ++ behind.toList) := by
    rw [hplace, String.toList_append, String.toList_append, hfragment, List.append_assoc,
      List.cons_append]
  have hbytes : Text.byteLength before.toList = err.position := by
    rw [← Text.utf8ByteSize_ofList, String.ofList_toList, hposition]
  have hsame : err.query.toList = before.toList ++ c :: (cs ++ behind.toList) := by
    rw [hpoints.query_eq, hseams]
  have hbelow := SyntaxError.caret_eq_below_iff hsame hbytes
  rw [hpoints.query_eq] at hbelow
  refine ⟨before.toList, c, _, hint, hseams, hbytes, ?_, hdisplay, ?_, hbelow⟩
  · rw [hfragment, List.head?_cons]
  · rw [SyntaxError.beforeCaret, SyntaxError.column_eq hsame hbytes, hpoints.query_eq]

/-- Sixteen bytes before the parenthesis that is blamed are thirteen characters. -/
theorem caret_below_fragment_iff_multibyte :
    ∃ err, parse {} "and(exists|ß‖)" = .error err ∧
      err.caret = ⟨2, 15⟩ ∧
      ∃ front c rest, "and(exists|ß‖)".toList = front ++ c :: rest ∧
        Text.byteLength front = 16 ∧ err.caret = (err.printed front).below := by
  have hread :
      read {} "and(exists|ß‖)" = .error ⟨.notExpression .closeParen, .within ⟨16, 17⟩⟩ := by
    cbv
  have hparse := parse_eq_error_iff.2 ⟨_, hread, rfl⟩
  obtain ⟨front, c, rest, _, hquery, hposition, _, _, _, hbelow⟩ :=
    caret_below_fragment_iff {} _ _ (by decide) (Or.inr hparse)
  exact ⟨_, hparse, by decide, front, c, rest, hquery, hposition, hbelow.2 (by decide)⟩

/-- The caret of a query of two lines is two columns behind the text and not below it. -/
theorem caret_below_fragment_iff_line_break :
    ¬ ∀ (limits : Limits) (query : String) (err : SyntaxError), query ≠ "" →
      tokenize limits query = .error err ∨ parse limits query = .error err →
      ∀ front c rest, query.toList = front ++ c :: rest →
        Text.byteLength front = err.position →
        err.caret = (err.printed front).below := by
  intro hcaret
  have hread :
      read {} "exists|a\nx" =
        .error ⟨.trailing (.literal (.bare "x")), .within ⟨9, 10⟩⟩ := by
    cbv
  have hbelow :=
    hcaret {} _ _ (by decide) (Or.inr (parse_eq_error_iff.2 ⟨_, hread, rfl⟩))
      "exists|a\n".toList 'x' [] rfl rfl
  revert hbelow
  decide

end Carets

end FieldQuery
