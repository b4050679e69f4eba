import FieldQuery.Proofs.CanonicalText
import FieldQuery.Proofs.DecimalTexts

/-!
# The lines of an outline

An outline is written a node a line, with two blanks in front for each level, so the tree
can be read back from the lines as long as no label has a line break in it.  The label of
an expression is its operator and the canonical text of its field and value.  Nothing in
that breaks a line but a quoted literal, which keeps the line breaks that it was written
with.

**Results.**

* `Text.lines_flatMap`, `Text.length_lines_flatMap`: the lines of a text made of lines;
* `Outline.ofRows_rows`: a tree is read back from its labels and their levels;
* `Expr.tree_eq_flatMap`: the outline of an expression, node by node;
* `Expr.sum_count_details`: the line breaks in it are those of the literals;
* `tree_lines_iff`: when an expression that was read has a line for each node.
-/

namespace FieldQuery

namespace Text

/-- The lines of a text: each ends at a line break, the last one maybe where the text ends. -/
def lines : List Char → List (List Char)
  | [] => []
  | c :: cs =>
      if c = '\n' then
        [] :: lines cs
      else
        match lines cs with
        | [] => [[c]]
        | l :: ls => (c :: l) :: ls

/-- What comes before the first line break is the first line. -/
theorem lines_append_break
    {l : List Char} (hl : '\n' ∉ l) (cs : List Char) :
    lines (l ++ '\n' :: cs) = l :: lines cs := by
  induction l with
  | nil =>
      rfl
  | cons c l ih =>
      obtain ⟨hc, hl⟩ := List.ne_and_not_mem_of_not_mem_cons hl
      rw [List.cons_append, lines, if_neg hc.symm, ih hl]

/-- Each line break ends a line. -/
theorem length_lines_append_break
    (cs ds : List Char) :
    (lines (cs ++ '\n' :: ds)).length = cs.count '\n' + 1 + (lines ds).length := by
  induction cs with
  | nil =>
      rw [List.nil_append, lines, if_pos rfl, List.length_cons, List.count_nil]
      omega
  | cons c cs ih =>
      rw [List.cons_append, lines]
      split
      · rename_i hc
        subst hc
        rw [List.length_cons, ih, List.count_cons_self]
        omega
      · rename_i hc
        rw [List.count_cons_of_ne hc, ← ih]
        cases hmore : lines (cs ++ '\n' :: ds) with
        | nil =>
            rw [hmore, List.length_nil] at ih
            omega
        | cons l ls =>
            rfl

/-- Lines that are written one after another are read back, if they are lines. -/
theorem lines_flatMap
    {ls : List (List Char)} (hls : ∀ l ∈ ls, '\n' ∉ l) :
    lines (ls.flatMap (· ++ ['\n'])) = ls := by
  induction ls with
  | nil =>
      rfl
  | cons l ls ih =>
      obtain ⟨hl, hls⟩ := List.forall_mem_cons.1 hls
      rw [List.flatMap_cons, List.append_assoc, List.singleton_append, lines_append_break hl,
        ih hls]

theorem length_lines_flatMap
    (ls : List (List Char)) :
    (lines (ls.flatMap (· ++ ['\n']))).length = ls.length + (ls.map (·.count '\n')).sum := by
  induction ls with
  | nil =>
      rfl
  | cons l ls ih =>
      rw [List.flatMap_cons, List.append_assoc, List.singleton_append,
        length_lines_append_break, ih, List.length_cons, List.map_cons, List.sum_cons]
      omega

end Text

namespace Outline

mutual

/-- The labels of an outline with their levels, a node before its children. -/
def rows (level : Nat) : Outline → List (Nat × String)
  | node label children => (level, label) :: rowsOf (level + 1) children

/-- The labels of several outlines at one level. -/
def rowsOf (level : Nat) : List Outline → List (Nat × String)
  | [] => []
  | o :: os => rows level o ++ rowsOf level os

end

/-- A label behind two blanks for each level. -/
def lineOf (row : Nat × String) : List Char :=
  List.replicate (2 * row.1) ' ' ++ row.2.toList

mutual

/-- An outline is written a row a line. -/
theorem writeAt_eq_flatMap
    (level : Nat) (o : Outline) :
    (o.writeAt level).toList = (o.rows level).flatMap (lineOf · ++ ['\n']) := by
  cases o with
  | node label children =>
      simp [writeAt, rows, lineOf, writeAll_eq_flatMap (level + 1) children]

theorem writeAll_eq_flatMap
    (level : Nat) (os : List Outline) :
    (writeAll level os).toList = (rowsOf level os).flatMap (lineOf · ++ ['\n']) := by
  cases os with
  | nil =>
      rfl
  | cons o os =>
      rw [writeAll, rowsOf, String.toList_append, List.flatMap_append, writeAt_eq_flatMap level o,
        writeAll_eq_flatMap level os]

end

/--
Puts a label in front of trees that stand at some levels: those at the front that are
deeper become its children.
-/
def attach (row : Nat × String) (trees : List (Nat × Outline)) : List (Nat × Outline) :=
  (row.1, .node row.2 ((trees.takeWhile (row.1 < ·.1)).map Prod.snd)) ::
    trees.dropWhile (row.1 < ·.1)

/-- The trees that labels and their levels make up. -/
def ofRows (rows : List (Nat × String)) : List Outline :=
  (rows.foldr attach []).map Prod.snd

mutual

/-- The rows of a tree make it up in front of trees that are not deeper. -/
theorem foldr_attach_rows
    (level : Nat) (o : Outline) {trees : List (Nat × Outline)}
    (htrees : ∀ t ∈ trees.head?, t.1 ≤ level) :
    (o.rows level).foldr attach trees = (level, o) :: trees := by
  cases o with
  | node label children =>
      have hchildren : ∀ t ∈ children.map (level + 1, ·), decide (level < t.1) = true := by
        simp
      have hbehind : ∀ t ∈ trees.head?, decide (level < t.1) = false :=
        fun t ht => decide_eq_false (Nat.not_lt.2 (htrees t ht))
      rw [rows, List.foldr_cons, foldr_attach_rowsOf (level + 1) children, attach,
        takeWhile_append_of_head? hchildren hbehind, dropWhile_append_of_head? hchildren hbehind,
        List.map_map]
      · simp [Function.comp_def]
      · exact fun t ht => Nat.le_succ_of_le (htrees t ht)

theorem foldr_attach_rowsOf
    (level : Nat) (os : List Outline) {trees : List (Nat × Outline)}
    (htrees : ∀ t ∈ trees.head?, t.1 ≤ level) :
    (rowsOf level os).foldr attach trees = os.map (level, ·) ++ trees := by
  cases os with
  | nil =>
      rfl
  | cons o os =>
      rw [rowsOf, List.foldr_append, foldr_attach_rowsOf level os htrees,
        foldr_attach_rows level o]
      · rfl
      · cases os with
        | nil =>
            exact htrees
        | cons o os =>
            simp

end

/-- **A tree is read back** from its labels and their levels. -/
theorem ofRows_rows
    (level : Nat) (o : Outline) :
    ofRows (o.rows level) = [o] := by
  rw [ofRows, foldr_attach_rows level o (by simp)]
  rfl

/-- The level and the first word of a line. -/
def rowOf (line : List Char) : Nat × String :=
  ((line.takeWhile (· = ' ')).length / 2,
    String.ofList ((line.dropWhile (· = ' ')).takeWhile (· ≠ ' ')))

theorem rowOf_lineOf
    (level : Nat) {word rest : String} (hne : word.toList ≠ []) (hword : ' ' ∉ word.toList)
    (hrest : ∀ c ∈ rest.toList.head?, c = ' ') :
    rowOf (lineOf (level, word ++ rest)) = (level, word) := by
  have hindent : ∀ c ∈ List.replicate (2 * level) ' ', decide (c = ' ') = true := by
    simp
  have hstart : ∀ c ∈ (word ++ rest).toList.head?, decide (c = ' ') = false := by
    intro c hc
    rw [String.toList_append, List.head?_append_of_ne_nil _ hne] at hc
    exact decide_eq_false fun hblank => hword (hblank ▸ List.mem_of_mem_head? hc)
  have hletters : ∀ c ∈ word.toList, decide (c ≠ ' ') = true :=
    fun c hc => decide_eq_true fun hblank => hword (hblank ▸ hc)
  have hend : ∀ c ∈ rest.toList.head?, decide (c ≠ ' ') = false :=
    fun c hc => decide_eq_false (not_not_intro (hrest c hc))
  rw [rowOf, lineOf, takeWhile_append_of_head? hindent hstart,
    dropWhile_append_of_head? hindent hstart, String.toList_append,
    takeWhile_append_of_head? hletters hend, List.length_replicate,
    Nat.mul_div_cancel_left level Nat.two_pos, String.ofList_toList]

end Outline

section Nodes

namespace Expr

mutual

/-- The nodes of an expression with their levels, each before its children. -/
def rows (level : Nat) : Expr → List (Nat × Expr)
  | junction j children => (level, junction j children) :: rowsOf (level + 1) children
  | not child => (level, not child) :: rows (level + 1) child
  | e => [(level, e)]

/-- The nodes of several expressions at one level. -/
def rowsOf (level : Nat) : List Expr → List (Nat × Expr)
  | [] => []
  | e :: es => rows level e ++ rowsOf level es

end

/-- What is shown of a node behind the name of its operator. -/
def details : Expr → String
  | junction _ _ | not _ => ""
  | presence _ field => " field=" ++ field.canonical
  | search _ value => " value=" ++ value.canonical
  | compare _ field value => " field=" ++ field.canonical ++ " value=" ++ value.canonical

/-- The line of a node: its operator behind two blanks for each level, and its details. -/
def lineOf (row : Nat × Expr) : List Char :=
  List.replicate (2 * row.1) ' ' ++ (row.2.operator.name ++ row.2.details).toList

mutual

/-- How the operators of an expression are nested. -/
def nesting : Expr → Outline
  | junction j children => .node (Operator.junction j).name (nestingOf children)
  | not child => .node Operator.not.name [nesting child]
  | e => .node e.operator.name []

/-- How the operators of several expressions are nested. -/
def nestingOf : List Expr → List Outline
  | [] => []
  | e :: es => nesting e :: nestingOf es

end

theorem name_junction
    (j : Junction) :
    (Operator.junction j).name = j.connective.name := by
  cases j <;> rfl

mutual

theorem rows_outline
    (level : Nat) (e : Expr) :
    e.outline.rows level =
      (e.rows level).map fun r => (r.1, r.2.operator.name ++ r.2.details) := by
  cases e with
  | junction j children =>
      rw [outline, rows, Outline.rows, List.map_cons, rowsOf_outlines (level + 1) children]
      simp [operator, details, name_junction]
  | not child =>
      rw [outline, rows, Outline.rows, List.map_cons, Outline.rowsOf, Outline.rowsOf,
        rows_outline (level + 1) child, List.append_nil]
      rfl
  | presence p field =>
      simp [outline, rows, Outline.rows, Outline.rowsOf, operator, details, String.append_assoc]
  | search mode value =>
      simp [outline, rows, Outline.rows, Outline.rowsOf, operator, details, String.append_assoc]
  | compare c field value =>
      simp [outline, rows, Outline.rows, Outline.rowsOf, operator, details, String.append_assoc]

theorem rowsOf_outlines
    (level : Nat) (es : List Expr) :
    Outline.rowsOf level (outlines es) =
      (rowsOf level es).map fun r => (r.1, r.2.operator.name ++ r.2.details) := by
  cases es with
  | nil =>
      rfl
  | cons e es =>
      rw [outlines, rowsOf, Outline.rowsOf, List.map_append, rows_outline level e,
        rowsOf_outlines level es]

end

mutual

theorem rows_nesting
    (level : Nat) (e : Expr) :
    e.nesting.rows level = (e.rows level).map fun r => (r.1, r.2.operator.name) := by
  cases e with
  | junction j children =>
      rw [nesting, rows, Outline.rows, List.map_cons, rowsOf_nestingOf (level + 1) children]
      rfl
  | not child =>
      rw [nesting, rows, Outline.rows, List.map_cons, Outline.rowsOf, Outline.rowsOf,
        rows_nesting (level + 1) child, List.append_nil]
      rfl
  | _ =>
      simp [nesting, rows, Outline.rows, Outline.rowsOf]

theorem rowsOf_nestingOf
    (level : Nat) (es : List Expr) :
    Outline.rowsOf level (nestingOf es) =
      (rowsOf level es).map fun r => (r.1, r.2.operator.name) := by
  cases es with
  | nil =>
      rfl
  | cons e es =>
      rw [nestingOf, rowsOf, Outline.rowsOf, List.map_append, rows_nesting level e,
        rowsOf_nestingOf level es]

end

/-- **The outline of an expression** is written a node a line. -/
theorem tree_eq_flatMap
    (e : Expr) :
    e.tree.toList = ((e.rows 0).map lineOf).flatMap (· ++ ['\n']) := by
  rw [tree, Outline.write, Outline.writeAt_eq_flatMap, rows_outline, List.flatMap_map,
    List.flatMap_map]
  rfl

/-- The level and the operator of a node are read back from its line. -/
theorem rowOf_lineOf
    (level : Nat) (e : Expr) :
    Outline.rowOf (lineOf (level, e)) = (level, e.operator.name) := by
  obtain ⟨hne, hword, _⟩ := e.operator.name_isWord
  refine Outline.rowOf_lineOf level hne (fun hblank => ?_) ?_
  · exact absurd (hword ' ' hblank) (by decide)
  · cases e <;> simp [details]

end Expr

end Nodes

section Breaks

/-- The line breaks in a literal. -/
def Literal.breaks (l : Literal) : Nat :=
  l.raw.toList.count '\n'

/-- Escaping neither adds line breaks nor takes any away. -/
theorem Literal.count_canonical
    (l : Literal) :
    l.canonical.toList.count '\n' = l.breaks := by
  have hescape : ∀ cs : List Char, (cs.flatMap escapeChar).count '\n' = cs.count '\n' := by
    intro cs
    induction cs with
    | nil =>
        rfl
    | cons c cs ih =>
        rw [List.flatMap_cons, List.count_append, ih, List.count_cons, escapeChar, Nat.add_comm]
        split
        · simp_all
        · split
          · simp_all
          · rw [List.count_singleton]
  unfold canonical breaks
  split
  · simp [hescape]
  · rfl

theorem Operator.count_name
    (op : Operator) :
    op.name.toList.count '\n' = 0 := by
  rw [List.count_eq_zero]
  intro hbreak
  exact absurd (op.name_isWord.2.1 '\n' hbreak) (by decide)

namespace Operand

mutual

/-- The line breaks in the text of an operand are those in its literals. -/
theorem count_canonical
    (x : Operand) :
    x.canonical.toList.count '\n' = (x.literals.map Literal.breaks).sum := by
  cases x with
  | literal l =>
      simp [canonical, literals, l.count_canonical]
  | group connective members =>
      have hname := connective.operator.count_name
      rw [connective.name_operator] at hname
      simp [canonical, literals, hname, count_canonicalOf members]

theorem count_canonicalOf
    (xs : List Operand) :
    (canonicalOf xs).toList.count '\n' = ((literalsOf xs).map Literal.breaks).sum := by
  match xs with
  | [] =>
      rfl
  | [x] =>
      simp [canonicalOf, literalsOf, count_canonical x]
  | x :: y :: ys =>
      rw [canonicalOf, literalsOf, List.map_append, List.sum_append, ← count_canonical x,
        ← count_canonicalOf (y :: ys)]
      · simp
      · simp

end

end Operand

namespace Expr

mutual

/-- The line breaks in the details of an expression are those in its literals. -/
theorem sum_count_details
    (level : Nat) (e : Expr) :
    ((e.rows level).map fun r => r.2.details.toList.count '\n').sum =
      (e.literals.map Literal.breaks).sum := by
  cases e with
  | junction j children =>
      rw [rows, literals, List.map_cons, List.sum_cons, sum_count_detailsOf (level + 1) children]
      simp [details]
  | not child =>
      rw [rows, literals, List.map_cons, List.sum_cons, sum_count_details (level + 1) child]
      simp [details]
  | presence p field =>
      simp [rows, literals, details, field.count_canonical]
  | search mode value =>
      simp [rows, literals, details, value.count_canonical]
  | compare c field value =>
      simp [rows, literals, details, field.count_canonical, value.count_canonical]

theorem sum_count_detailsOf
    (level : Nat) (es : List Expr) :
    ((rowsOf level es).map fun r => r.2.details.toList.count '\n').sum =
      ((literalsOf es).map Literal.breaks).sum := by
  cases es with
  | nil =>
      rfl
  | cons e es =>
      rw [rowsOf, literalsOf, List.map_append, List.map_append, List.sum_append, List.sum_append,
        sum_count_details level e, sum_count_detailsOf level es]

end

/-- Only the details of a node can break its line. -/
theorem count_lineOf
    (row : Nat × Expr) :
    (lineOf row).count '\n' = row.2.details.toList.count '\n' := by
  rw [lineOf, String.toList_append, List.count_append, List.count_append,
    row.2.operator.count_name, List.count_replicate]
  simp

/-- An outline has a line for each node, and one more for each line break in a literal. -/
theorem length_lines_tree
    (e : Expr) :
    (Text.lines e.tree.toList).length =
      (e.rows 0).length + (e.literals.map Literal.breaks).sum := by
  rw [tree_eq_flatMap, Text.length_lines_flatMap, List.length_map, List.map_map,
    ← sum_count_details 0 e]
  simp only [Function.comp_def, count_lineOf]

end Expr

end Breaks

section Trees

/--
The outline of an expression has a line for each node, in the order of the nodes, which
shows the level and the operator of the node; how the operators are nested is read back
from the lines.
-/
structure Expr.OneNodePerLine (e : Expr) : Prop where
  lines : Text.lines e.tree.toList = (e.rows 0).map lineOf
  nested : Outline.ofRows ((Text.lines e.tree.toList).map Outline.rowOf) = [e.nesting]

/-- There is a line for each node just if no literal has a line break in it. -/
theorem Expr.oneNodePerLine_iff
    {e : Expr} :
    e.OneNodePerLine ↔ ∀ l ∈ e.literals, '\n' ∉ l.raw.toList := by
  have hnone :
      (e.literals.map Literal.breaks).sum = 0 ↔ ∀ l ∈ e.literals, '\n' ∉ l.raw.toList := by
    rw [List.sum_eq_zero_iff, List.forall_mem_map]
    simp only [Literal.breaks, List.count_eq_zero]
  rw [← hnone]
  constructor
  · intro hlines
    have hlength := e.length_lines_tree
    rw [hlines.lines, List.length_map] at hlength
    omega
  · intro hbreaks
    rw [← sum_count_details 0] at hbreaks
    have hplain : ∀ line ∈ (e.rows 0).map lineOf, '\n' ∉ line := by
      intro line hline
      obtain ⟨row, hrow, rfl⟩ := List.mem_map.1 hline
      rw [← List.count_eq_zero, count_lineOf]
      exact List.sum_eq_zero_iff.1 hbreaks _ (List.mem_map_of_mem hrow)
    have hlines : Text.lines e.tree.toList = (e.rows 0).map lineOf := by
      rw [tree_eq_flatMap, Text.lines_flatMap hplain]
    refine ⟨hlines, ?_⟩
    have hrows : ((e.rows 0).map lineOf).map Outline.rowOf = e.nesting.rows 0 := by
      rw [rows_nesting, List.map_map]
      exact List.map_congr_left fun row _ => rowOf_lineOf row.1 row.2
    rw [hlines, hrows, Outline.ofRows_rows]

/--
**The outline of an expression that was read has one line a node exactly if no quoted
literal spans lines.**  It has as many lines as the expression has nodes and its literals
have line breaks.  Where there are none, the lines are those of the nodes, each before its
children and behind two blanks for each level, and the nesting of the operators is read
back from them.
-/
theorem tree_lines_iff
    (limits : Limits) (query : String) (e : Expr) (hparse : parse limits query = .ok e) :
    (Text.lines e.tree.toList).length =
        (e.rows 0).length + (e.literals.map fun l => l.raw.toList.count '\n').sum ∧
      (e.OneNodePerLine ↔ ∀ l ∈ e.literals, l.quoted = true → '\n' ∉ l.raw.toList) := by
  refine ⟨e.length_lines_tree, ?_⟩
  rw [Expr.oneNodePerLine_iff]
  refine forall₂_congr fun l hl => ⟨fun hbreak _ => hbreak, fun hquoted hbreak => ?_⟩
  cases hkind : l.quoted with
  | true =>
      exact hquoted hkind hbreak
  | false =>
      -- a bare literal is a word
      obtain ⟨_, _, hword⟩ := ((Expr.readable_of_parse hparse).spelt l hl).bare hkind
      exact absurd (hword '\n' hbreak).1 (by decide)

/-- A tree of four nodes, one of which has a group and another a text with a blank. -/
theorem tree_lines_iff_nested :
    ∃ e, parse {} "and(exists|or(a,b),not(equals|c|\"d e\"))" = .ok e ∧
      e.OneNodePerLine ∧
      Outline.ofRows ((Text.lines e.tree.toList).map Outline.rowOf) =
        [.node "and" [.node "exists" [], .node "not" [.node "equals" []]]] := by
  have hparse :
      parse {} "and(exists|or(a,b),not(equals|c|\"d e\"))" =
        .ok (.junction .and
          [.presence .present (.group .or [.literal (.bare "a"), .literal (.bare "b")]),
            .not (.compare .equals (.literal (.bare "c")) (.literal (.ofQuoted "d e")))]) := by
    cbv
  have hlines := (tree_lines_iff {} _ _ hparse).2.2 (by decide)
  exact ⟨_, hparse, hlines, hlines.nested⟩

/-- A line break in a quoted literal makes a second line of a single node. -/
theorem tree_lines_iff_line_break :
    ¬ ∀ (limits : Limits) (query : String) (e : Expr),
      parse limits query = .ok e → e.OneNodePerLine := by
  intro hlines
  have hparse :
      parse {} "exists|\"a\nb\"" = .ok (.presence .present (.literal (.ofQuoted "a\nb"))) := by
    cbv
  have hlength := congrArg List.length (hlines _ _ _ hparse).lines
  revert hlength
  decide

end Trees

end FieldQuery
