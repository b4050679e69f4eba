import FieldQuery.Proofs.CompileFailures
import FieldQuery.Proofs.ErrorPlaces

/-!
# The fragment that a failed run shows

A syntax error cuts its fragment out of the query.  A field name that is not known comes
out of the tree, where a quoted literal has lost its quotes and its escapes.  Such a name
need not occur in the query, but a token of the query stands for it, and it occurs
wherever that token has no escape.

**Results.**

* `Unquotes.eq_or_hasEscape`: without an escape the inside of a literal is kept;
* `Literal.ReadFrom.standsFor_raw`: a token stands for the text of its literal;
* `Expr.exists_literal_of_mem_fieldNames`: a field name is the text of a literal;
* `run_error_fragment`: what the fragment of an error has to do with the query.
-/

namespace FieldQuery

section Escapes

/-- A backslash stands before a quote or a backslash. -/
def HasEscape (cs : List Char) : Prop :=
  ['\\', '"'] <:+: cs ∨ ['\\', '\\'] <:+: cs

theorem HasEscape.mono
    {cs ds : List Char} (hwithin : cs <:+: ds) (hescape : HasEscape cs) :
    HasEscape ds :=
  hescape.imp (·.trans hwithin) (·.trans hwithin)

/-- Where there is no escape, a quoted literal stands for what is between its quotes. -/
theorem Unquotes.eq_or_hasEscape
    {body value : List Char} (hbody : Unquotes body value) :
    value = body ∨ HasEscape body := by
  induction hbody with
  | nil =>
      exact Or.inl rfl
  | @quote body value _ _ =>
      exact Or.inr (Or.inl (List.prefix_append ['\\', '"'] body).isInfix)
  | @backslash body value _ _ =>
      exact Or.inr (Or.inr (List.prefix_append ['\\', '\\'] body).isInfix)
  | @kept c body value _ _ _ ih =>
      refine ih.imp (congrArg _) ?_
      exact HasEscape.mono (List.suffix_cons _ _).isInfix
  | @plain c body value _ _ _ ih =>
      refine ih.imp (congrArg _) ?_
      exact HasEscape.mono (List.suffix_cons _ _).isInfix

/-- A piece of a query stands for itself, or as a quoted literal for what that says. -/
inductive StandsFor : List Char → List Char → Prop
  | itself
      {text : List Char} :
      StandsFor text text
  | quoted
      {body value : List Char}
      (hbody : Unquotes body value) :
      StandsFor ('"' :: (body ++ ['"'])) value

/-- A piece without an escape holds the text that it stands for. -/
theorem StandsFor.isInfix_or_hasEscape
    {piece text : List Char} (hstands : StandsFor piece text) :
    text <:+: piece ∨ HasEscape piece := by
  cases hstands with
  | itself =>
      exact Or.inl (List.infix_refl _)
  | @quoted body value hbody =>
      have hinside : body <:+: '"' :: (body ++ ['"']) :=
        ⟨['"'], ['"'], rfl⟩
      refine hbody.eq_or_hasEscape.imp ?_ (HasEscape.mono hinside)
      rintro rfl
      exact hinside

end Escapes

section Names

/-- A token stands for the text of the literal that is read from it. -/
theorem Literal.ReadFrom.standsFor_raw
    {l : Literal} {t : Token} (hspells : Spells t.text.toList t.kind) (hread : l.ReadFrom t) :
    StandsFor t.text.toList l.raw.toList := by
  rcases hread with hkind | ⟨op, _, rfl⟩
  · rw [hkind] at hspells
    generalize t.text.toList = text at hspells
    cases hspells with
    | mark hmark =>
        simp [marks] at hmark
    | @quoted body value hbody =>
        simpa [Literal.ofQuoted] using StandsFor.quoted hbody
    | bare _ _ =>
        simpa [Literal.bare] using StandsFor.itself
  · exact .itself

namespace Expr

mutual

/-- A name in a field position is the text of a literal. -/
theorem exists_literal_of_mem_fieldNames
    {name : String} (e : Expr) (hname : name ∈ e.fieldNames) :
    ∃ l ∈ e.literals, l.raw = name := by
  cases e with
  | junction j children =>
      exact exists_literal_of_mem_fieldNamesOf children hname
  | not child =>
      exact exists_literal_of_mem_fieldNames child hname
  | presence p field =>
      exact List.mem_map.1 hname
  | search mode value =>
      cases hname
  | compare c field value =>
      obtain ⟨l, hl, hraw⟩ := List.mem_map.1 hname
      exact ⟨l, List.mem_append_left _ hl, hraw⟩

theorem exists_literal_of_mem_fieldNamesOf
    {name : String} (es : List Expr) (hname : name ∈ fieldNamesOf es) :
    ∃ l ∈ literalsOf es, l.raw = name := by
  cases es with
  | nil =>
      cases hname
  | cons e es =>
      rcases List.mem_append.1 hname with hfirst | hmore
      · obtain ⟨l, hl, hraw⟩ := exists_literal_of_mem_fieldNames e hfirst
        exact ⟨l, List.mem_append_left _ hl, hraw⟩
      · obtain ⟨l, hl, hraw⟩ := exists_literal_of_mem_fieldNamesOf es hmore
        exact ⟨l, List.mem_append_right _ hl, hraw⟩

end

end Expr

variable {engine : Engine} {resolver : Resolver} {query name : String}

/-- A field name that a run blames is the text of a literal read from a token of the query. -/
theorem exists_token_of_run_eq_unknownField
    (hrun : engine.run resolver query = .error (.unknownField name)) :
    ∃ tokens, lex engine.limits query = .ok tokens ∧
      ∃ t ∈ tokens, ∃ l, Literal.ReadFrom l t ∧ l.raw = name := by
  cases hparse : parse engine.limits query with
  | error err =>
      rw [run_eq_error_malformedQuery_iff.2 hparse] at hrun
      cases hrun
  | ok e =>
      have hcompile := ((run_of_parse resolver hparse).2 name).1 hrun
      obtain ⟨_, _, hfirst⟩ := Expr.compile_eq_error_unknownField_iff.1 hcompile
      obtain ⟨l, hl, rfl⟩ := e.exists_literal_of_mem_fieldNames (List.mem_of_find?_eq_some hfirst)
      obtain ⟨tokens, hlex, hderives, _⟩ := parse_eq_ok_iff.1 hparse
      obtain ⟨t, ht, hread⟩ := ExprDerives.literals_of_tokens hderives l hl
      exact ⟨tokens, hlex, t, ht, l, hread, rfl⟩

end Names

section Fragments

/--
**The fragment of a failed run is what a piece of the query stands for.**  A syntax error
shows the piece itself, at the place that it gives.  A field name that is not known is
the text of a literal read from one token of the query, a word or a quoted literal.
Where the piece has no escape, the fragment occurs in the query.
-/
theorem run_error_fragment
    (engine : Engine) (resolver : Resolver) (query : String) (err : EngineError)
    (hrun : engine.run resolver query = .error err) :
    ∃ before piece after,
      query.toList = before ++ (piece ++ after) ∧
      StandsFor piece err.fragment.toList ∧
      (HasEscape piece ∨ err.fragment.toList <:+: query.toList) ∧
      (∀ e, err = .malformedQuery e →
        piece = e.fragment.toList ∧ Text.byteLength before = e.position) ∧
      (∀ name, err = .unknownField name →
        ∃ tokens, lex engine.limits query = .ok tokens ∧
          ∃ t ∈ tokens, t.text.toList = piece ∧ t.start = Text.byteLength before ∧
            ∃ l, Literal.ReadFrom l t ∧ l.raw = name) := by
  cases err with
  | malformedQuery e =>
      obtain ⟨located, hread, rfl⟩ :=
        parse_eq_error_iff.1 (run_eq_error_malformedQuery_iff.1 hrun)
      obtain ⟨before, after, hquery, hplace⟩ := (read_error_pointsInto hread).place
      generalize located.toError query = e at hquery hplace ⊢
      have hseams : query.toList = before.toList ++ (e.fragment.toList ++ after.toList) := by
        rw [hquery, String.toList_append, String.toList_append, List.append_assoc]
      have hwithin : e.fragment.toList <:+: query.toList :=
        ⟨before.toList, after.toList, by rw [hseams, List.append_assoc]⟩
      refine ⟨before.toList, e.fragment.toList, after.toList, hseams, .itself, Or.inr hwithin,
        ?_, nofun⟩
      intro e' heq
      obtain rfl := EngineError.malformedQuery.inj heq
      exact ⟨rfl, by rw [← hplace, ← Text.utf8ByteSize_ofList, String.ofList_toList]⟩
  | unknownField name =>
      obtain ⟨tokens, hlex, t, ht, l, hread, rfl⟩ := exists_token_of_run_eq_unknownField hrun
      have hlexing := (lex_eq_ok_iff.1 hlex).2
      have hstands := hread.standsFor_raw (hlexing.spelt t ht)
      obtain ⟨before, after, hquery, hstart⟩ := hlexing.placed t ht
      rw [Nat.zero_add] at hstart
      have hwithin : t.text.toList <:+: query.toList :=
        ⟨before, after, by rw [hquery, List.append_assoc]⟩
      refine ⟨before, t.text.toList, after, hquery, hstands, ?_, nofun, ?_⟩
      · exact hstands.isInfix_or_hasEscape.symm.imp_right (·.trans hwithin)
      · intro name heq
        exact ⟨tokens, hlex, t, ht, rfl, hstart, l, hread, EngineError.unknownField.inj heq⟩

/-- The name stands in the query with a backslash before its quote. -/
theorem run_error_fragment_escaped_quote :
    Engine.run {} (fun _ => none) "exists|\"a\\\"b\"" = .error (.unknownField "a\"b") ∧
      ∃ before piece after,
        "exists|\"a\\\"b\"".toList = before ++ (piece ++ after) ∧
        StandsFor piece "a\"b".toList := by
  have hrun :
      Engine.run {} (fun _ => none) "exists|\"a\\\"b\"" = .error (.unknownField "a\"b") := by
    cbv
  obtain ⟨before, piece, after, hquery, hstands, _⟩ := run_error_fragment {} _ _ _ hrun
  exact ⟨hrun, before, piece, after, hquery, hstands⟩

/-- A fragment need not occur in the query. -/
theorem run_error_fragment_not_infix :
    ¬ ∀ (engine : Engine) (resolver : Resolver) (query : String) (err : EngineError),
      engine.run resolver query = .error err → err.fragment.toList <:+: query.toList := by
  intro hwithin
  have hname :=
    hwithin {} (fun _ => none) "exists|\"a\\\"b\"" (.unknownField "a\"b") (by cbv)
  revert hname
  decide

end Fragments

end FieldQuery
