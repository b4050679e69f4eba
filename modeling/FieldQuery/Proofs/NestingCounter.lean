import Mathlib
import FieldQuery.Proofs.ReaderCalls

/-!
# The count of open parentheses

The readers pass on one number, the count of parentheses that are open.  The reader of
an opening parenthesis raises it before it is compared with the limit, only the reader
of a closing parenthesis lowers it, and a fault may end the reading anywhere in between.

Between any two points of a reading the count changes by the opening parentheses among
the tokens in between less the closing ones.  So a call that returns finds it as it was,
and at every call it is the number of nodes in progress around it.

**Results.**

* `ExprDerives.surplus_eq`: what is read as a whole closes what it opens;
* `Call.outcome_whole`: a call that succeeds leaves the count as it was;
* `Past.tracks`: so does a run of members with separators between them;
* `InProgress.exact`: the calls in progress;
* `tooDeep_iff_opening`: when the limit is reported;
* `nesting_counter_exact`: every call of a reading, and its end.
-/

namespace FieldQuery

section Surplus

/-- The change that a token makes to the number of open parentheses. -/
def TokenKind.change : TokenKind → Int
  | .openParen => 1
  | .closeParen => -1
  | _ => 0

/-- The opening parentheses among tokens, less the closing ones. -/
def surplus : List Token → Int
  | [] => 0
  | t :: ts => t.kind.change + surplus ts

@[simp] theorem surplus_nil : surplus [] = 0 := by
  rfl

@[simp] theorem surplus_cons (t : Token) (ts : List Token) :
    surplus (t :: ts) = t.kind.change + surplus ts := by
  rfl

@[simp] theorem surplus_append (ts us : List Token) :
    surplus (ts ++ us) = surplus ts + surplus us := by
  induction ts with
  | nil =>
      simp
  | cons t ts ih =>
      simp [ih, Int.add_assoc]

mutual

/-- An operand closes the parentheses that it opens. -/
theorem OperandDerives.surplus_eq
    {tokens rest : List Token} {x : Operand} :
    OperandDerives tokens x rest → surplus tokens = surplus rest
  | .literal hkind => by
      simp [hkind, TokenKind.change]
  | .keyword hkind _ => by
      simp [hkind, TokenKind.change]
  | .group hhead _ hopening hmembers hclosing => by
      have hinner := hmembers.surplus_eq
      simp only [surplus_cons, hhead, hopening, hclosing, TokenKind.change] at hinner ⊢
      omega

theorem OperandsDerive.surplus_eq
    {tokens rest : List Token} {xs : List Operand} :
    OperandsDerive tokens xs rest → surplus tokens = surplus rest
  | .one hx => hx.surplus_eq
  | .more hx hseparator hxs => by
      have hfirst := hx.surplus_eq
      have hmore := hxs.surplus_eq
      simp only [surplus_cons, hseparator, TokenKind.change] at hfirst
      omega

end

mutual

/-- An expression closes the parentheses that it opens. -/
theorem ExprDerives.surplus_eq
    {tokens rest : List Token} {e : Expr} :
    ExprDerives tokens e rest → surplus tokens = surplus rest
  | .logical hhead hopening hchildren hclosing => by
      have hinner := hchildren.surplus_eq
      simp only [surplus_cons, hhead, hopening, hclosing, TokenKind.change] at hinner ⊢
      omega
  | .negation hhead hopening hchild hclosing => by
      have hinner := hchild.surplus_eq
      simp only [surplus_cons, hhead, hopening, hclosing, TokenKind.change] at hinner ⊢
      omega
  | .presence hhead hbar hfield => by
      have hbehind := hfield.surplus_eq
      simp only [surplus_cons, hhead, hbar, TokenKind.change]
      omega
  | .search hhead hbar hvalue => by
      have hbehind := hvalue.surplus_eq
      simp only [surplus_cons, hhead, hbar, TokenKind.change]
      omega
  | .compare hhead hbar hfield hbar' hvalue => by
      have hfirst := hfield.surplus_eq
      have hsecond := hvalue.surplus_eq
      simp only [surplus_cons, hhead, hbar, hbar', TokenKind.change] at hfirst ⊢
      omega

theorem ExprsDerive.surplus_eq
    {tokens rest : List Token} {es : List Expr} :
    ExprsDerive tokens es rest → surplus tokens = surplus rest
  | .one he => he.surplus_eq
  | .more he hseparator hes => by
      have hfirst := he.surplus_eq
      have hmore := hes.surplus_eq
      simp only [surplus_cons, hseparator, TokenKind.change] at hfirst
      omega

end

end Surplus

section Points

/--
From one point to a later one the count changes as the tokens in between say: by their
opening parentheses less their closing ones.
-/
def Tracks (s s' : Point) : Prop :=
  ∃ used, s.ahead = used ++ s'.ahead ∧ (s'.depth : Int) = s.depth + surplus used

variable {s s' s'' : Point}

theorem Tracks.refl (s : Point) :
    Tracks s s :=
  ⟨[], rfl, by simp⟩

theorem Tracks.trans
    (h : Tracks s s') (h' : Tracks s' s'') :
    Tracks s s'' := by
  obtain ⟨used, hahead, hdepth⟩ := h
  obtain ⟨used', hahead', hdepth'⟩ := h'
  refine ⟨used ++ used', ?_, ?_⟩
  · rw [hahead, hahead', List.append_assoc]
  · rw [surplus_append]
    omega

/-- A token is read, and the count changes as it says. -/
theorem Tracks.token
    {t : Token} (hahead : s.ahead = t :: s'.ahead)
    (hdepth : (s'.depth : Int) = s.depth + t.kind.change) :
    Tracks s s' :=
  ⟨[t], hahead, by simpa using hdepth⟩

/-- What was read is derived, and the count is as it was. -/
theorem Tracks.of_sound
    {n limit : Nat} {α : Type} {derives : List Token → α → List Token → Prop}
    {size : α → Nat} {p : Parsed n α}
    (hsound : p.Sound derives size limit s.depth s.ahead)
    (hsuffix : p.rest <:+ s.ahead) (hsurplus : surplus s.ahead = surplus p.rest) :
    Tracks s p.point := by
  obtain ⟨used, hused⟩ := hsuffix
  refine ⟨used, hused.symm, ?_⟩
  rw [← hused, surplus_append] at hsurplus
  simp only [Parsed.point, hsound.depth_eq]
  omega

end Points

section Calls

variable {limit : Nat} {s s' : Point}

theorem Call.outcome_opening
    {keyword : Connective} (houtcome : Call.outcome limit ⟨.opening keyword, s⟩ = .ok s') :
    Tracks s s' ∧ s'.depth = s.depth + 1 ∧ s.depth + 1 ≤ limit := by
  obtain ⟨o, hopen, rfl⟩ := map_eq_ok_iff.1 houtcome
  obtain ⟨t, hahead, hkind, hdepth, hroom⟩ := readOpening_ok hopen
  refine ⟨.token hahead ?_, hdepth, hroom⟩
  simp only [Parsed.point, hdepth, hkind, TokenKind.change]
  omega

theorem Call.outcome_closing
    {keyword : Connective} {head : Span} (hopened : 0 < s.depth)
    (houtcome : Call.outcome limit ⟨.closing keyword head, s⟩ = .ok s') :
    Tracks s s' ∧ s'.depth + 1 = s.depth := by
  obtain ⟨c, hclose, rfl⟩ := map_eq_ok_iff.1 houtcome
  obtain ⟨t, hahead, hkind, hdepth⟩ := readClosing_ok hclose
  have hlowered : c.depth + 1 = s.depth := by
    omega
  refine ⟨.token hahead ?_, hlowered⟩
  simp only [Parsed.point, hkind, TokenKind.change]
  omega

/-- A group that was read closes what it opened, its own parenthesis among it. -/
theorem Call.outcome_group
    {connective : Connective} {head : Span}
    (houtcome : Call.outcome limit ⟨.group connective head, s⟩ = .ok s') :
    Tracks s s' ∧ s'.depth = s.depth := by
  obtain ⟨p, hread, rfl⟩ := map_eq_ok_iff.1 houtcome
  obtain ⟨o, xs, c, _, hopen, hxs, hc, rfl⟩ := readGroup_ok hread
  have hopened : Call.outcome limit ⟨.opening connective, s⟩ = .ok o.point :=
    map_eq_ok_iff.2 ⟨o, hopen, rfl⟩
  obtain ⟨htracks, hraised, _⟩ := Call.outcome_opening hopened
  have hsound := readOperands_sound limit o.depth o.last hxs
  have hmembers : Tracks o.point xs.point :=
    .of_sound hsound hsound.derived.suffix hsound.derived.surplus_eq
  have hkept : xs.point.depth = s.depth + 1 :=
    hsound.depth_eq.trans hraised
  have hclosed : Call.outcome limit ⟨.closing connective head, xs.point⟩ = .ok c.point :=
    map_eq_ok_iff.2 ⟨c, hc, rfl⟩
  obtain ⟨htracks', hlowered⟩ := Call.outcome_closing (by omega) hclosed
  refine ⟨(htracks.trans hmembers).trans htracks', ?_⟩
  change c.point.depth = s.depth
  omega

/-- The readers of expressions, operands and groups; the others read a single parenthesis. -/
def Reader.IsWhole : Reader → Prop
  | .expr _ | .operand | .group _ _ => True
  | .opening _ | .closing _ _ => False

/-- **A call that succeeds** leaves the count as it was, and has read balanced tokens. -/
theorem Call.outcome_whole
    {c : Call} (hwhole : c.reader.IsWhole) (houtcome : c.outcome limit = .ok s') :
    Tracks c.start s' ∧ s'.depth = c.start.depth := by
  obtain ⟨reader, s⟩ := c
  cases reader with
  | expr holder =>
      obtain ⟨p, hread, rfl⟩ := map_eq_ok_iff.1 houtcome
      have hsound := readExpr_sound limit holder s.depth s.last hread
      exact ⟨.of_sound hsound hsound.derived.suffix hsound.derived.surplus_eq, hsound.depth_eq⟩
  | operand =>
      obtain ⟨p, hread, rfl⟩ := map_eq_ok_iff.1 houtcome
      have hsound := readOperand_sound limit s.depth s.last hread
      exact ⟨.of_sound hsound hsound.derived.suffix hsound.derived.surplus_eq, hsound.depth_eq⟩
  | group connective head =>
      exact Call.outcome_group houtcome
  | opening keyword =>
      exact hwhole.elim
  | closing keyword head =>
      exact hwhole.elim

/-- A call that succeeds has read at least one token. -/
theorem Call.outcome_length
    {c : Call} (houtcome : c.outcome limit = .ok s') :
    s'.ahead.length < c.start.ahead.length := by
  obtain ⟨reader, s⟩ := c
  cases reader <;>
    · obtain ⟨p, _, rfl⟩ := map_eq_ok_iff.1 houtcome
      exact p.fewer

end Calls

section Progress

/-- Whether a call reads a node. -/
def Call.isNode : Call → Bool
  | ⟨.expr _, ⟨_, _, t :: _⟩⟩ =>
      match t.kind with
      | .operator op => op.connective?.isSome
      | _ => false
  | ⟨.group _ _, _⟩ => true
  | _ => false

variable {limit : Nat} {tokens : List Token} {c c' : Call} {callers : List Call}

/-- Members that were read one after another leave the count as it was. -/
theorem Past.tracks
    {member : Reader} {separator : TokenKind} {s s' : Point}
    (hwhole : member.IsWhole) (hchange : separator.change = 0)
    (hpast : Past limit member separator s s') :
    Tracks s s' ∧ s'.depth = s.depth := by
  induction hpast with
  | none =>
      exact ⟨.refl _, rfl⟩
  | @more s s' s'' t ts hmember hahead hseparator _ ih =>
      obtain ⟨htracks, hkept⟩ := Call.outcome_whole hwhole hmember
      obtain ⟨htracks', hkept'⟩ := ih
      have hpassed : Tracks s' ⟨s'.depth, t.span, ts⟩ := by
        refine .token hahead ?_
        rw [hseparator, hchange]
        exact (Int.add_zero _).symm
      exact ⟨(htracks.trans hpassed).trans htracks', hkept'.trans hkept⟩

section Nodes

variable {keyword : Connective} {head : Span} {s first next : Point} {member : Reader}

/-- A call that reads a node has its keyword behind it where the parenthesis is to open. -/
theorem Call.Node.tracks
    (hnode : c.Node keyword head s member) :
    Tracks c.start s ∧ s.depth = c.start.depth := by
  cases hnode with
  | @expr holder s t ts op keyword hahead hhead hkeyword =>
      refine ⟨.token hahead ?_, rfl⟩
      simp [hhead, TokenKind.change]
  | group =>
      exact ⟨.refl _, rfl⟩

theorem Call.Node.isNode
    (hnode : c.Node keyword head s member) :
    c.isNode = true := by
  cases hnode with
  | @expr holder s t ts op keyword hahead hhead hkeyword =>
      obtain ⟨depth, last, ahead⟩ := s
      change ahead = t :: ts at hahead
      subst hahead
      simp [Call.isNode, hhead, hkeyword]
  | group =>
      rfl

theorem Call.Node.isWhole
    (hnode : c.Node keyword head s member) :
    c.reader.IsWhole ∧ member.IsWhole := by
  cases hnode <;> exact ⟨trivial, trivial⟩

/-- Where a member of a node begins, the parenthesis of the node is open. -/
theorem Call.Node.inside
    (hnode : c.Node keyword head s member)
    (hopening : Call.outcome limit ⟨.opening keyword, s⟩ = .ok first)
    (hpast : Past limit member .groupSep first next) :
    Tracks c.start next ∧ next.depth = c.start.depth + 1 ∧ c.start.depth + 1 ≤ limit := by
  obtain ⟨htracks, hkept⟩ := hnode.tracks
  obtain ⟨htracks', hraised, hroom⟩ := Call.outcome_opening hopening
  obtain ⟨htracks'', hkept'⟩ := hpast.tracks hnode.isWhole.2 rfl
  refine ⟨(htracks.trans htracks').trans htracks'', ?_, ?_⟩ <;> omega

end Nodes

/-- A call that makes others reads something whole. -/
theorem Call.Makes.isWhole
    (hmakes : c.Makes limit c') :
    c.reader.IsWhole := by
  cases hmakes with
  | opening hnode =>
      exact hnode.isWhole.1
  | member hnode _ _ _ =>
      exact hnode.isWhole.1
  | closing hnode _ _ _ _ _ _ =>
      exact hnode.isWhole.1
  | operand _ _ _ _ _ =>
      trivial
  | group _ _ _ _ =>
      trivial

/-- What a call adds to the count at once: only an opening parenthesis counts before it is read. -/
def Reader.raise : Reader → Nat
  | .opening _ => 1
  | _ => 0

theorem Reader.IsWhole.raise_eq
    {reader : Reader} (hwhole : reader.IsWhole) :
    reader.raise = 0 := by
  cases reader with
  | opening keyword =>
      exact hwhole.elim
  | _ =>
      rfl

/-- The most calls that can be in progress up to one that begins where `depth` nodes are open. -/
def Reader.mostCalls : Reader → Nat → Nat
  | .expr _, depth => 2 * depth + 1
  | .operand, depth => 2 * depth + 2
  | .group _ _, depth => 2 * depth + 3
  | .opening _, depth => 2 * depth + 4
  | .closing _ _, depth => 2 * depth + 2

theorem Call.Node.mostCalls_le
    {keyword : Connective} {head : Span} {s : Point} {member : Reader}
    (hnode : c.Node keyword head s member) (depth : Nat) :
    c.reader.mostCalls depth ≤ 2 * depth + 3 ∧
      c.reader.mostCalls depth + 1 ≤ member.mostCalls (depth + 1) := by
  cases hnode <;> simp only [Reader.mostCalls] <;> omega

/--
What holds where a call begins: the count, the nodes in progress around the call and the
tokens read before it agree, and keep within the limit.
-/
structure Call.Exact (limit : Nat) (tokens : List Token) (c : Call) (callers : List Call) :
    Prop where
  /-- The tokens read so far opened as many parentheses more than they closed. -/
  tracks : Tracks ⟨0, ⟨0, 0⟩, tokens⟩ c.start
  /-- The limit is kept. -/
  depth_le : c.start.depth ≤ limit
  /-- As many nodes are in progress, of which one may be about to open. -/
  counted : c.start.depth + c.reader.raise = callers.countP Call.isNode
  /-- A parenthesis closes only what is open. -/
  closing : ∀ keyword head, c.reader = .closing keyword head → 0 < c.start.depth
  /-- The calls in progress are bounded by the count. -/
  length_le : (c :: callers).length ≤ c.reader.mostCalls c.start.depth

/-- A call that is made by another begins with an exact count if that one did. -/
theorem Call.Exact.makes
    (hexact : c.Exact limit tokens callers) (hmakes : c.Makes limit c') :
    c'.Exact limit tokens (c :: callers) := by
  have hcounted := hexact.counted
  rw [hmakes.isWhole.raise_eq] at hcounted
  have hlimit := hexact.depth_le
  have hlength := hexact.length_le
  rw [List.length_cons] at hlength
  cases hmakes with
  | @opening _ keyword head s member hnode =>
      obtain ⟨htracks, hkept⟩ := hnode.tracks
      have hmost := (hnode.mostCalls_le c.start.depth).1
      refine ⟨hexact.tracks.trans htracks, ?_, ?_, nofun, ?_⟩
      · dsimp only
        omega
      · rw [List.countP_cons_of_pos hnode.isNode]
        dsimp only [Reader.raise]
        omega
      · simp only [List.length_cons, Reader.mostCalls]
        omega
  | @member _ keyword head s first next member hnode hopening _ hpast =>
      obtain ⟨htracks, hraised, hroom⟩ := hnode.inside hopening hpast
      have hmost := (hnode.mostCalls_le c.start.depth).2
      have hraise := hnode.isWhole.2.raise_eq
      refine ⟨hexact.tracks.trans htracks, ?_, ?_, ?_, ?_⟩
      · dsimp only
        omega
      · rw [List.countP_cons_of_pos hnode.isNode]
        dsimp only
        omega
      · rintro keyword' head' rfl
        exact hnode.isWhole.2.elim
      · simp only [List.length_cons, hraised]
        omega
  | @closing _ keyword head s first final behind member hnode hopening _ hpast hfinal _ _ =>
      obtain ⟨htracks, hraised, hroom⟩ := hnode.inside hopening hpast
      obtain ⟨htracks', hkept⟩ := Call.outcome_whole hnode.isWhole.2 hfinal
      dsimp only at htracks' hkept
      have hmost := (hnode.mostCalls_le c.start.depth).1
      refine ⟨(hexact.tracks.trans htracks).trans htracks', ?_, ?_, fun _ _ _ => ?_, ?_⟩
      · dsimp only
        omega
      · rw [List.countP_cons_of_pos hnode.isNode]
        dsimp only [Reader.raise]
        omega
      · dsimp only
        omega
      · simp only [List.length_cons, Reader.mostCalls]
        omega
  | @operand holder s next t bar ts op hahead hhead hplain hbar hpast =>
      obtain ⟨htracks, hkept⟩ :=
        hpast.tracks (show Reader.operand.IsWhole from trivial) rfl
      have hbarred : Tracks s ⟨s.depth, bar.span, ts⟩ := by
        refine ⟨[t, bar], hahead, ?_⟩
        simp [hhead, hbar, TokenKind.change]
      have hnotNode : ¬ Call.isNode ⟨.expr holder, s⟩ = true := by
        obtain ⟨depth, last, ahead⟩ := s
        change ahead = t :: bar :: ts at hahead
        subst hahead
        simp [Call.isNode, hhead, hplain]
      refine ⟨(hexact.tracks.trans hbarred).trans htracks, ?_, ?_, nofun, ?_⟩
      · rw [hkept]
        exact hlimit
      · rw [List.countP_cons_of_neg hnotNode, ← hcounted]
        exact hkept
      · simp only [List.length_cons, Reader.mostCalls, hkept] at hlength ⊢
        omega
  | @group s t ts op connective hahead hhead hconnective hopening =>
      have htracks : Tracks s ⟨s.depth, t.span, ts⟩ := by
        refine .token hahead ?_
        simp [hhead, TokenKind.change]
      have hnotNode : ¬ Call.isNode ⟨.operand, s⟩ = true := by
        simp [Call.isNode]
      refine ⟨hexact.tracks.trans htracks, hlimit, ?_, nofun, ?_⟩
      · rw [List.countP_cons_of_neg hnotNode, ← hcounted]
        rfl
      · simp only [List.length_cons, Reader.mostCalls] at hlength ⊢
        omega

/-- Every call in progress began with an exact count. -/
theorem InProgress.exact
    (hcalls : InProgress limit tokens (c :: callers)) :
    c.Exact limit tokens callers := by
  generalize hstack : c :: callers = stack at hcalls
  induction hcalls generalizing c callers with
  | first htokens =>
      obtain ⟨rfl, rfl⟩ := List.cons.inj hstack
      exact ⟨.refl _, Nat.zero_le _, rfl, nofun, Nat.le_refl _⟩
  | next _ hmakes ih =>
      obtain ⟨rfl, rfl⟩ := List.cons.inj hstack
      exact (ih rfl).makes hmakes

/-- Where a whole query was read, no parenthesis is left open and no token is left over. -/
theorem outcome_of_readTokens
    {e : Expr} (hread : readTokens limit tokens = .ok e) :
    ∃ last, Call.outcome limit ⟨.expr none, ⟨0, ⟨0, 0⟩, tokens⟩⟩ = .ok ⟨0, last, []⟩ := by
  cases tokens with
  | nil =>
      cases hread
  | cons t ts =>
      simp only [readTokens] at hread
      cases hp : readExpr limit none 0 ⟨0, 0⟩ (t :: ts) with
      | error err =>
          simp [hp] at hread
      | ok p =>
          simp only [hp] at hread
          split at hread
          · rename_i hrest
            have hkept := (readExpr_sound limit none 0 ⟨0, 0⟩ hp).depth_eq
            refine ⟨p.last, map_eq_ok_iff.2 ⟨p, hp, ?_⟩⟩
            rw [Parsed.point, hkept, hrest]
          · cases hread

theorem Reader.mostCalls_le
    (reader : Reader) (depth : Nat) :
    reader.mostCalls depth ≤ 2 * depth + 4 := by
  cases reader <;> simp only [Reader.mostCalls] <;> omega

/-- There are not many more calls in progress than nodes can be. -/
theorem InProgress.length_le
    (hcalls : InProgress limit tokens (c :: callers)) :
    (c :: callers).length ≤ 2 * limit + 4 := by
  have hexact := hcalls.exact
  have hmost := c.reader.mostCalls_le c.start.depth
  have hlimit := hexact.depth_le
  have hlength := hexact.length_le
  omega

/-- A call that fails for its depth has an opening parenthesis that fails so, in progress. -/
theorem InProgress.exists_opening
    {err : Located} {n : Nat} (hcalls : InProgress limit tokens (c :: callers))
    (hfails : c.outcome limit = .error err) (hdeep : err.fault = .tooDeep n) :
    ∃ keyword s callers', InProgress limit tokens (⟨.opening keyword, s⟩ :: callers') ∧
      Call.outcome limit ⟨.opening keyword, s⟩ = .error err := by
  -- one call more is in progress at each step, and there is no room for any number of them
  induction hroom : 2 * limit + 4 - (c :: callers).length using Nat.strongRecOn
    generalizing c callers with
  | ind room ih =>
      by_cases hwhole : ∀ keyword, c.reader ≠ .opening keyword
      · obtain ⟨c', hmakes, hfails'⟩ := Call.exists_makes hwhole hfails hdeep
        have hmore := hcalls.next hmakes
        have hlength := hmore.length_le
        refine ih _ ?_ hmore hfails' rfl
        simp only [List.length_cons] at hlength hroom ⊢
        omega
      · obtain ⟨reader, start⟩ := c
        simp only [not_forall, not_not] at hwhole
        obtain ⟨keyword, rfl⟩ := hwhole
        exact ⟨keyword, start, callers, hcalls, hfails⟩

/-- **The limit is reported** exactly where a node is to open inside as many as are allowed. -/
theorem tooDeep_iff_opening
    (limit : Nat) (tokens : List Token) :
    (∃ err, readTokens limit tokens = .error err ∧ err.fault = .tooDeep limit) ↔
      ∃ keyword s callers, InProgress limit tokens (⟨.opening keyword, s⟩ :: callers) ∧
        s.depth = limit ∧ StartsWith .openParen s.ahead := by
  constructor
  · rintro ⟨err, hread, hdeep⟩
    cases tokens with
    | nil =>
        rw [← Except.error.inj hread] at hdeep
        cases hdeep
    | cons t ts =>
        have hfirst : Call.outcome limit ⟨.expr none, ⟨0, ⟨0, 0⟩, t :: ts⟩⟩ = .error err := by
          simp only [readTokens] at hread
          cases hp : readExpr limit none 0 ⟨0, 0⟩ (t :: ts) with
          | error err' =>
              rw [hp] at hread
              obtain rfl := Except.error.inj hread
              exact map_eq_error_iff.2 hp
          | ok p =>
              rw [hp] at hread
              dsimp only at hread
              split at hread
              · cases hread
              · rw [← Except.error.inj hread] at hdeep
                cases hdeep
        obtain ⟨keyword, s, callers, hcalls, hopening⟩ :=
          (InProgress.first (List.cons_ne_nil t ts)).exists_opening hfirst hdeep
        obtain ⟨hparen, hfull⟩ :=
          readOpening_eq_error_tooDeep (map_eq_error_iff.1 hopening) hdeep
        exact ⟨keyword, s, callers, hcalls, Nat.le_antisymm hcalls.exact.depth_le hfull, hparen⟩
  · rintro ⟨keyword, s, callers, hcalls, rfl, hparen⟩
    obtain ⟨depth, last, ahead⟩ := s
    obtain ⟨t, ts, rfl, hkind⟩ := hparen.exists_cons
    refine ⟨⟨.tooDeep depth, .within t.span⟩, hcalls.readTokens_eq_error ?_, rfl⟩
    exact map_eq_error_iff.2 (by simp [readOpening, hkind])

/--
**The count of open parentheses is exact.**  Whatever the tokens and the limit, at every
call that is made while they are read the count is the surplus of opening parentheses
among the tokens read before, and at most the limit; and if the call fails, so does the
whole reading.

* Where an expression, an operand or a group is to be read, it is the number of nodes in
  progress around the call; if the call succeeds, it has read some tokens, closed what it
  opened and left the count as it was.
* Where a parenthesis is to open a node, it is about to be the number of nodes in
  progress, at most one more than the limit.
* Where a parenthesis is to close a node, it is not zero.

The calls in progress are at most twice as many as the limit and four, and after a whole
query the count is zero.
-/
theorem nesting_counter_exact
    (limit : Nat) (tokens : List Token) :
    (∀ c callers, InProgress limit tokens (c :: callers) →
      (∃ used, tokens = used ++ c.start.ahead ∧ surplus used = c.start.depth) ∧
      c.start.depth ≤ limit ∧
      (∀ err, c.outcome limit = .error err → readTokens limit tokens = .error err) ∧
      (c.reader.IsWhole →
        c.start.depth = callers.countP Call.isNode ∧
        ∀ s, c.outcome limit = .ok s →
          s.depth = c.start.depth ∧
          ∃ used, used ≠ [] ∧ c.start.ahead = used ++ s.ahead ∧ surplus used = 0) ∧
      (∀ keyword, c.reader = .opening keyword →
        c.start.depth + 1 = callers.countP Call.isNode ∧
        c.start.depth + 1 ≤ limit + 1 ∧
        ∀ s, c.outcome limit = .ok s → s.depth = c.start.depth + 1) ∧
      (∀ keyword head, c.reader = .closing keyword head →
        c.start.depth = callers.countP Call.isNode ∧
        0 < c.start.depth ∧
        ∀ s, c.outcome limit = .ok s → s.depth + 1 = c.start.depth) ∧
      (c :: callers).length ≤ 2 * limit + 4)
      ∧
    (∀ e, readTokens limit tokens = .ok e →
      ∃ last, Call.outcome limit ⟨.expr none, ⟨0, ⟨0, 0⟩, tokens⟩⟩ = .ok ⟨0, last, []⟩) := by
  refine ⟨fun c callers hcalls => ?_, fun e hread => outcome_of_readTokens hread⟩
  have hexact := hcalls.exact
  have hlimit := hexact.depth_le
  obtain ⟨used, htokens, hsurplus⟩ := hexact.tracks
  refine ⟨⟨used, htokens, by simpa using hsurplus.symm⟩, hlimit,
    fun _ hfails => hcalls.readTokens_eq_error hfails, ?_, ?_, ?_, hcalls.length_le⟩
  · intro hwhole
    have hcounted := hexact.counted
    rw [hwhole.raise_eq] at hcounted
    refine ⟨hcounted, fun s houtcome => ?_⟩
    obtain ⟨⟨used, hahead, hdepth⟩, hkept⟩ := Call.outcome_whole hwhole houtcome
    refine ⟨hkept, used, ?_, hahead, by omega⟩
    rintro rfl
    have hless := Call.outcome_length houtcome
    rw [hahead, List.nil_append] at hless
    exact absurd hless (Nat.lt_irrefl _)
  · intro keyword hreader
    have hcounted := hexact.counted
    rw [hreader] at hcounted
    refine ⟨hcounted, Nat.succ_le_succ hlimit, fun s houtcome => ?_⟩
    obtain ⟨reader, start⟩ := c
    obtain rfl : reader = .opening keyword := hreader
    exact (Call.outcome_opening houtcome).2.1
  · intro keyword head hreader
    have hcounted := hexact.counted
    rw [hreader] at hcounted
    have hopened := hexact.closing keyword head hreader
    refine ⟨hcounted, hopened, fun s houtcome => ?_⟩
    obtain ⟨reader, start⟩ := c
    obtain rfl : reader = .closing keyword head := hreader
    exact (Call.outcome_closing hopened houtcome).2

/-- At the second member of the group, both nodes are open. -/
theorem nesting_counter_exact_second_member :
    ∃ tokens callers,
      lex {} "not(exists|or(b,c))" = .ok tokens ∧
      InProgress 2 tokens (⟨.operand, ⟨2, ⟨15, 16⟩, tokens.drop 8⟩⟩ :: callers) ∧
      callers.countP Call.isNode = 2 := by
  obtain ⟨tokens, hlex, htokens⟩ :
      ∃ tokens, lex {} "not(exists|or(b,c))" = .ok tokens ∧ tokens =
        [⟨.operator .not, "not", 0⟩, ⟨.openParen, "(", 3⟩,
          ⟨.operator (.presence .present), "exists", 4⟩, ⟨.fieldSep, "|", 10⟩,
          ⟨.operator (.junction .or), "or", 11⟩, ⟨.openParen, "(", 13⟩,
          ⟨.literal (.bare "b"), "b", 14⟩, ⟨.groupSep, ",", 15⟩,
          ⟨.literal (.bare "c"), "c", 16⟩, ⟨.closeParen, ")", 17⟩,
          ⟨.closeParen, ")", 18⟩] :=
    ⟨_, by cbv, rfl⟩
  have hfirst :
      Call.outcome 2 ⟨.operand, ⟨2, ⟨13, 14⟩,
        [⟨.literal (.bare "b"), "b", 14⟩, ⟨.groupSep, ",", 15⟩,
          ⟨.literal (.bare "c"), "c", 16⟩, ⟨.closeParen, ")", 17⟩,
          ⟨.closeParen, ")", 18⟩]⟩⟩ =
        .ok ⟨2, ⟨14, 15⟩,
          [⟨.groupSep, ",", 15⟩, ⟨.literal (.bare "c"), "c", 16⟩, ⟨.closeParen, ")", 17⟩,
            ⟨.closeParen, ")", 18⟩]⟩ := by
    cbv
  have hquery : InProgress 2 tokens [⟨.expr none, ⟨0, ⟨0, 0⟩, tokens⟩⟩] :=
    .first (by simp [htokens])
  subst htokens
  have hchild := hquery.next (.member (.expr rfl rfl rfl) rfl (by rintro ⟨⟩) .none)
  have hfield := hchild.next (.operand rfl rfl rfl rfl .none)
  have hgroup := hfield.next (.group rfl rfl rfl rfl)
  have hmember := hgroup.next (.member .group rfl (by rintro ⟨⟩) (.more hfirst rfl rfl .none))
  exact ⟨_, _, hlex, hmember, (((nesting_counter_exact 2 _).1 _ _ hmember).2.2.2.1 trivial).1.symm⟩

end Progress

end FieldQuery
