import FieldQuery.Proofs.ReaderSoundness

/-!
# The calls that readers make

A reader calls others, one after another, and the fault of one that fails is its own
fault.  The calls that have begun and not ended are in progress, each made by the next
one.  What a call comes to and which calls it makes are told apart here, so that it can
be said what holds whenever a reader begins.

**Results.**

* `Repeats.eq_error`, `Repeats.eq_ok`, `Repeats.exists_past`: members with separators;
* `Call.Node.exists_members`: the steps in which a node is read;
* `Call.Makes.outcome_eq_error`: a call fails as one that it makes;
* `InProgress.readTokens_eq_error`: the calls in progress are made;
* `Call.exists_makes`: what is too deep is noticed at an opening parenthesis.
-/

namespace FieldQuery

section Calls

/-- A point of a reading: the count there, the last token read and the tokens ahead. -/
structure Point where
  depth : Nat
  last : Span
  ahead : List Token

/-- The point at which a reader ended. -/
def Parsed.point {n : Nat} {α : Type} (p : Parsed n α) : Point :=
  ⟨p.depth, p.last, p.rest⟩

/-- What a call is to read. -/
inductive Reader where
  /-- An expression, inside a node of `holder` if it is inside one. -/
  | expr (holder : Option Connective)
  /-- A field or a value. -/
  | operand
  /-- What follows the keyword of a group. -/
  | group (connective : Connective) (head : Span)
  /-- The parenthesis that opens a node. -/
  | opening (keyword : Connective)
  /-- The parenthesis that closes a node. -/
  | closing (keyword : Connective) (head : Span)

/-- The call of a reader, and the point at which it begins. -/
structure Call where
  reader : Reader
  start : Point

/-- What a call comes to: the point at which it ends, or a fault. -/
def Call.outcome (limit : Nat) : Call → Except Located Point
  | ⟨.expr holder, s⟩ =>
      (readExpr limit holder s.depth s.last s.ahead).map Parsed.point
  | ⟨.operand, s⟩ =>
      (readOperand limit s.depth s.last s.ahead).map Parsed.point
  | ⟨.group connective head, s⟩ =>
      (readGroup limit connective head s.depth s.last s.ahead).map Parsed.point
  | ⟨.opening keyword, s⟩ =>
      (readOpening limit keyword s.depth s.last s.ahead).map Parsed.point
  | ⟨.closing keyword head, s⟩ =>
      (readClosing keyword head s.depth s.ahead).map Parsed.point

/--
From the point at which the first of several members begins to one at which another one
begins: the members in between were read, each with a separator behind it.
-/
inductive Past (limit : Nat) (member : Reader) (separator : TokenKind) : Point → Point → Prop
  | none
      {s : Point} :
      Past limit member separator s s
  | more
      {s s' s'' : Point} {t : Token} {ts : List Token}
      (hmember : Call.outcome limit ⟨member, s⟩ = .ok s')
      (hahead : s'.ahead = t :: ts)
      (hseparator : t.kind = separator)
      (hmore : Past limit member separator ⟨s'.depth, t.span, ts⟩ s'') :
      Past limit member separator s s''

/--
A call that reads a node: behind the keyword at `head`, at the point `s`, it reads a
parenthesis, members with separators between them, and a parenthesis.
-/
inductive Call.Node : Call → Connective → Span → Point → Reader → Prop
  | expr
      {holder : Option Connective} {s : Point} {t : Token} {ts : List Token}
      {op : Operator} {keyword : Connective}
      (hahead : s.ahead = t :: ts)
      (hhead : t.kind = .operator op)
      (hkeyword : op.connective? = some keyword) :
      Node ⟨.expr holder, s⟩ keyword t.span ⟨s.depth, t.span, ts⟩ (.expr (some keyword))
  | group
      {connective : Connective} {head : Span} {s : Point} :
      Node ⟨.group connective head, s⟩ connective head s .operand

/-- The calls that a call makes itself, whatever becomes of them. -/
inductive Call.Makes (limit : Nat) : Call → Call → Prop
  | opening
      {c : Call} {keyword : Connective} {head : Span} {s : Point} {member : Reader}
      (hnode : c.Node keyword head s member) :
      Makes limit c ⟨.opening keyword, s⟩
  | member
      {c : Call} {keyword : Connective} {head : Span} {s first next : Point} {member : Reader}
      (hnode : c.Node keyword head s member)
      (hopening : Call.outcome limit ⟨.opening keyword, s⟩ = .ok first)
      (hholds : ¬ StartsWith .closeParen first.ahead)
      (hpast : Past limit member .groupSep first next) :
      Makes limit c ⟨member, next⟩
  | closing
      {c : Call} {keyword : Connective} {head : Span} {s first final behind : Point}
      {member : Reader}
      (hnode : c.Node keyword head s member)
      (hopening : Call.outcome limit ⟨.opening keyword, s⟩ = .ok first)
      (hholds : ¬ StartsWith .closeParen first.ahead)
      (hpast : Past limit member .groupSep first final)
      (hfinal : Call.outcome limit ⟨member, final⟩ = .ok behind)
      (hends : ¬ StartsWith .groupSep behind.ahead)
      (honly : member = .expr (some .not) → final = first) :
      Makes limit c ⟨.closing keyword head, behind⟩
  | operand
      {holder : Option Connective} {s next : Point} {t bar : Token} {ts : List Token}
      {op : Operator}
      (hahead : s.ahead = t :: bar :: ts)
      (hhead : t.kind = .operator op)
      (hplain : op.connective? = none)
      (hbar : bar.kind = .fieldSep)
      (hpast : Past limit .operand .fieldSep ⟨s.depth, bar.span, ts⟩ next) :
      Makes limit ⟨.expr holder, s⟩ ⟨.operand, next⟩
  | group
      {s : Point} {t : Token} {ts : List Token} {op : Operator} {connective : Connective}
      (hahead : s.ahead = t :: ts)
      (hhead : t.kind = .operator op)
      (hconnective : op.connective? = some connective)
      (hopening : StartsWith .openParen ts) :
      Makes limit ⟨.operand, s⟩ ⟨.group connective t.span, ⟨s.depth, t.span, ts⟩⟩

/--
The calls in progress at some time while `tokens` are read as a whole query, the latest
first: each was made by the next one.
-/
inductive InProgress (limit : Nat) (tokens : List Token) : List Call → Prop
  | first
      (htokens : tokens ≠ []) :
      InProgress limit tokens [⟨.expr none, ⟨0, ⟨0, 0⟩, tokens⟩⟩]
  | next
      {c c' : Call} {callers : List Call}
      (hcalls : InProgress limit tokens (c :: callers))
      (hmakes : c.Makes limit c') :
      InProgress limit tokens (c' :: c :: callers)

end Calls

section Members

variable {limit : Nat} {member : Reader} {α : Type}
  {readOne : Nat → Span → (tokens : List Token) → Except Located (Parsed tokens.length α)}
  {readMany : Nat → Span → (tokens : List Token) → Except Located (Parsed tokens.length (List α))}

/-- The reader of several members calls that of one, and itself behind a separator. -/
structure Repeats (limit : Nat) (member : Reader)
    (readOne : Nat → Span → (tokens : List Token) → Except Located (Parsed tokens.length α))
    (readMany : Nat → Span → (tokens : List Token) →
      Except Located (Parsed tokens.length (List α))) : Prop where
  one : ∀ s, Call.outcome limit ⟨member, s⟩ = (readOne s.depth s.last s.ahead).map Parsed.point
  fails : ∀ {depth last tokens err}, readOne depth last tokens = .error err →
    readMany depth last tokens = .error err
  ends : ∀ {depth last tokens p}, readOne depth last tokens = .ok p →
    ¬ StartsWith .groupSep p.rest →
      ∃ xs, readMany depth last tokens = .ok xs ∧ xs.point = p.point ∧ xs.value = [p.value]
  goesOn : ∀ {depth last tokens p t ts}, readOne depth last tokens = .ok p →
    p.rest = t :: ts → t.kind = .groupSep →
      (readMany depth last tokens).map Parsed.point =
        (readMany p.depth t.span ts).map Parsed.point

theorem repeats_readExprs
    (limit : Nat) (keyword : Connective) :
    Repeats limit (.expr (some keyword)) (readExpr limit (some keyword))
      (readExprs limit keyword) where
  one := fun _ => rfl
  fails := fun hread => by
    rw [readExprs, hread]
  ends := fun {depth last tokens p} hread hends => by
    obtain ⟨x, rest, last, depth, hfewer⟩ := p
    rw [readExprs, hread]
    cases rest with
    | nil =>
        exact ⟨_, rfl, rfl, rfl⟩
    | cons t ts =>
        rw [startsWith_cons] at hends
        simp only [hends]
        exact ⟨_, rfl, rfl, rfl⟩
  goesOn := fun {depth last tokens p t ts} hread hrest hseparator => by
    obtain ⟨x, rest, last, depth, hfewer⟩ := p
    obtain rfl : rest = t :: ts := hrest
    rw [readExprs, hread]
    simp only [hseparator]
    cases readExprs limit keyword depth t.span ts <;> rfl

theorem repeats_readOperands
    (limit : Nat) :
    Repeats limit .operand (readOperand limit) (readOperands limit) where
  one := fun _ => rfl
  fails := fun hread => by
    rw [readOperands, hread]
  ends := fun {depth last tokens p} hread hends => by
    obtain ⟨x, rest, last, depth, hfewer⟩ := p
    rw [readOperands, hread]
    cases rest with
    | nil =>
        exact ⟨_, rfl, rfl, rfl⟩
    | cons t ts =>
        rw [startsWith_cons] at hends
        simp only [hends]
        exact ⟨_, rfl, rfl, rfl⟩
  goesOn := fun {depth last tokens p t ts} hread hrest hseparator => by
    obtain ⟨x, rest, last, depth, hfewer⟩ := p
    obtain rfl : rest = t :: ts := hrest
    rw [readOperands, hread]
    simp only [hseparator]
    cases readOperands limit depth t.span ts <;> rfl

variable {s next final behind : Point} {err : Located}

/-- Members that were read leave the rest to be read from where the next one begins. -/
theorem Repeats.outcome_of_past
    (hrepeats : Repeats limit member readOne readMany)
    (hpast : Past limit member .groupSep s next) :
    (readMany s.depth s.last s.ahead).map Parsed.point =
      (readMany next.depth next.last next.ahead).map Parsed.point := by
  induction hpast with
  | none =>
      rfl
  | more hmember hahead hseparator _ ih =>
      rw [hrepeats.one] at hmember
      obtain ⟨p, hread, rfl⟩ := map_eq_ok_iff.1 hmember
      rw [hrepeats.goesOn hread hahead hseparator]
      exact ih

/-- Several members fail as the one that cannot be read. -/
theorem Repeats.eq_error
    (hrepeats : Repeats limit member readOne readMany)
    (hpast : Past limit member .groupSep s next)
    (hmember : Call.outcome limit ⟨member, next⟩ = .error err) :
    readMany s.depth s.last s.ahead = .error err := by
  rw [hrepeats.one, map_eq_error_iff] at hmember
  rw [← map_eq_error_iff (f := Parsed.point), hrepeats.outcome_of_past hpast,
    hrepeats.fails hmember]
  rfl

/-- Several members end where the last one ends. -/
theorem Repeats.eq_ok
    (hrepeats : Repeats limit member readOne readMany)
    (hpast : Past limit member .groupSep s final)
    (hfinal : Call.outcome limit ⟨member, final⟩ = .ok behind)
    (hends : ¬ StartsWith .groupSep behind.ahead) :
    ∃ xs, readMany s.depth s.last s.ahead = .ok xs ∧ xs.point = behind ∧
      (final = s → ∃ x, xs.value = [x]) := by
  rw [hrepeats.one] at hfinal
  obtain ⟨p, hread, rfl⟩ := map_eq_ok_iff.1 hfinal
  obtain ⟨ys, hlast, hpoint, hvalue⟩ := hrepeats.ends hread hends
  have hsame := hrepeats.outcome_of_past hpast
  rw [hlast] at hsame
  obtain ⟨xs, hxs, hbehind⟩ := map_eq_ok_iff.1 hsame
  refine ⟨xs, hxs, hbehind.trans hpoint, ?_⟩
  rintro rfl
  obtain rfl := Except.ok.inj (hxs.symm.trans hlast)
  exact ⟨_, hvalue⟩

/-- Several members fail only as one of them does, those before it being read. -/
theorem Repeats.exists_past
    (hrepeats : Repeats limit member readOne readMany)
    (hread : readMany s.depth s.last s.ahead = .error err) :
    ∃ next, Past limit member .groupSep s next ∧
      Call.outcome limit ⟨member, next⟩ = .error err := by
  induction hlength : s.ahead.length using Nat.strongRecOn generalizing s with
  | ind n ih =>
      cases hone : readOne s.depth s.last s.ahead with
      | error err' =>
          obtain rfl := Except.error.inj ((hrepeats.fails hone).symm.trans hread)
          exact ⟨s, .none, by rw [hrepeats.one, hone]; rfl⟩
      | ok p =>
          by_cases hseparator : StartsWith .groupSep p.rest
          · obtain ⟨t, ts, hrest, hkind⟩ := hseparator.exists_cons
            have hmore := hrepeats.goesOn hone hrest hkind
            rw [hread] at hmore
            have hfewer := p.fewer
            rw [hrest, List.length_cons] at hfewer
            obtain ⟨next, hpast, hfails⟩ :=
              ih ts.length (by omega) (s := ⟨p.depth, t.span, ts⟩)
                (map_eq_error_iff.1 hmore.symm) rfl
            have hmember : Call.outcome limit ⟨member, s⟩ = .ok p.point := by
              rw [hrepeats.one, hone]
              rfl
            exact ⟨next, .more hmember hrest hkind hpast, hfails⟩
          · obtain ⟨xs, hxs, _⟩ := hrepeats.ends hone hseparator
            rw [hread] at hxs
            cases hxs

end Members

section Nodes

variable {limit : Nat} {member : Reader}

/-- How the members of a node are read, and what is blamed when their number is wrong. -/
structure Members (limit : Nat) (member : Reader) where
  Value : Type
  readOne : Nat → Span → (tokens : List Token) → Except Located (Parsed tokens.length Value)
  readMany : Nat → Span → (tokens : List Token) →
    Except Located (Parsed tokens.length (List Value))
  repeats : Repeats limit member readOne readMany
  /-- The fault of a node without members, by the parenthesis that closes it. -/
  empty : Token → Located
  /-- The fault of a node with these members, if it cannot have as many. -/
  miscount : {n : Nat} → Parsed n (List Value) → Option Located
  empty_ne_tooDeep : ∀ close n, (empty close).fault ≠ .tooDeep n
  miscount_ne_tooDeep : ∀ {n} {xs : Parsed n (List Value)} {err},
    miscount xs = some err → ∀ n, err.fault ≠ .tooDeep n
  /-- Only the children of `not` are counted. -/
  miscount_eq_none : ∀ {n} {xs : Parsed n (List Value)},
    (member = .expr (some .not) → ∃ x, xs.value = [x]) → miscount xs = none

/-- Reads a node: a parenthesis, its members and a parenthesis. -/
def Members.readNode (m : Members limit member) (keyword : Connective) (head : Span) (s : Point) :
    Except Located Point :=
  match readOpening limit keyword s.depth s.last s.ahead with
  | .error e => .error e
  | .ok o =>
      match next? .closeParen o.rest with
      | some close => .error (m.empty close)
      | none =>
          match m.readMany o.depth o.last o.rest with
          | .error e => .error e
          | .ok xs =>
              match m.miscount xs with
              | some e => .error e
              | none => (readClosing keyword head xs.depth xs.rest).map Parsed.point

/-- The children of a node. -/
def Members.children (limit : Nat) (keyword : Connective) (op : Operator) (head : Span) :
    Members limit (.expr (some keyword)) where
  Value := Expr
  readOne := readExpr limit (some keyword)
  readMany := readExprs limit keyword
  repeats := repeats_readExprs limit keyword
  empty := fun close => arityFault op 0 head close.span
  miscount := fun es =>
    match keyword.apply? es.value with
    | none =>
        let last := ((next? .closeParen es.rest).map Token.span).getD es.last
        some (arityFault op es.value.length head last)
    | some _ => none
  empty_ne_tooDeep := nofun
  miscount_ne_tooDeep := fun {n es err} hmiscount n => by
    split at hmiscount
    · obtain rfl := Option.some.inj hmiscount
      exact nofun
    · cases hmiscount
  miscount_eq_none := fun {n es} hsingle => by
    cases keyword with
    | and =>
        rfl
    | or =>
        rfl
    | not =>
        obtain ⟨e, hvalue⟩ := hsingle rfl
        rw [hvalue]
        rfl

/-- The members of a group. -/
def Members.operands (limit : Nat) (connective : Connective) (head : Span) :
    Members limit .operand where
  Value := Operand
  readOne := readOperand limit
  readMany := readOperands limit
  repeats := repeats_readOperands limit
  empty := fun close => faultWithin (.emptyGroup connective) head.start close.stop
  miscount := fun _ => none
  empty_ne_tooDeep := nofun
  miscount_ne_tooDeep := nofun
  miscount_eq_none := fun _ => rfl

variable {c : Call} {keyword : Connective} {head : Span} {s first next final behind : Point}
  {err : Located}

/-- A call that reads a node takes the same steps whatever the members are. -/
theorem Call.Node.exists_members
    (limit : Nat) (hnode : c.Node keyword head s member) :
    ∃ m : Members limit member, c.outcome limit = m.readNode keyword head s := by
  cases hnode with
  | @expr holder s t ts op keyword hahead hhead hkeyword =>
      refine ⟨.children limit keyword op t.span, ?_⟩
      obtain ⟨depth, last, ahead⟩ := s
      obtain rfl : ahead = t :: ts := hahead
      simp only [Call.outcome, Members.readNode, Members.children]
      rw [readExpr]
      simp only [hhead, hkeyword]
      cases readOpening limit keyword depth t.span ts with
      | error err =>
          rfl
      | ok o =>
          dsimp only
          cases next? .closeParen o.rest with
          | some close =>
              rfl
          | none =>
              dsimp only
              cases readExprs limit keyword o.depth o.last o.rest with
              | error err =>
                  rfl
              | ok es =>
                  dsimp only
                  cases keyword.apply? es.value with
                  | none =>
                      rfl
                  | some e =>
                      dsimp only
                      cases readClosing keyword t.span es.depth es.rest <;> rfl
  | group =>
      refine ⟨.operands limit keyword head, ?_⟩
      simp only [Call.outcome, Members.readNode, Members.operands, readGroup]
      cases readOpening limit keyword s.depth s.last s.ahead with
      | error err =>
          rfl
      | ok o =>
          dsimp only
          cases next? .closeParen o.rest with
          | some close =>
              rfl
          | none =>
              dsimp only
              cases readOperands limit o.depth o.last o.rest with
              | error err =>
                  rfl
              | ok xs =>
                  dsimp only
                  cases readClosing keyword head xs.depth xs.rest <;> rfl

/-- A node fails as its opening parenthesis does. -/
theorem Call.Node.outcome_of_opening
    (hnode : c.Node keyword head s member)
    (hopening : Call.outcome limit ⟨.opening keyword, s⟩ = .error err) :
    c.outcome limit = .error err := by
  obtain ⟨m, hsteps⟩ := hnode.exists_members limit
  rw [hsteps, Members.readNode, map_eq_error_iff.1 hopening]

/-- A node that holds something fails as the member that cannot be read. -/
theorem Call.Node.outcome_of_member
    (hnode : c.Node keyword head s member)
    (hopening : Call.outcome limit ⟨.opening keyword, s⟩ = .ok first)
    (hholds : ¬ StartsWith .closeParen first.ahead)
    (hpast : Past limit member .groupSep first next)
    (hmember : Call.outcome limit ⟨member, next⟩ = .error err) :
    c.outcome limit = .error err := by
  obtain ⟨m, hsteps⟩ := hnode.exists_members limit
  obtain ⟨o, hopen, rfl⟩ := map_eq_ok_iff.1 hopening
  have hnext : next? .closeParen o.rest = none := next?_eq_none_iff.2 hholds
  have hread : m.readMany o.depth o.last o.rest = .error err := m.repeats.eq_error hpast hmember
  rw [hsteps, Members.readNode, hopen]
  simp only [hnext, hread]

/-- A node whose members were read fails as its closing parenthesis does. -/
theorem Call.Node.outcome_of_closing
    (hnode : c.Node keyword head s member)
    (hopening : Call.outcome limit ⟨.opening keyword, s⟩ = .ok first)
    (hholds : ¬ StartsWith .closeParen first.ahead)
    (hpast : Past limit member .groupSep first final)
    (hfinal : Call.outcome limit ⟨member, final⟩ = .ok behind)
    (hends : ¬ StartsWith .groupSep behind.ahead)
    (honly : member = .expr (some .not) → final = first)
    (hclosing : Call.outcome limit ⟨.closing keyword head, behind⟩ = .error err) :
    c.outcome limit = .error err := by
  obtain ⟨m, hsteps⟩ := hnode.exists_members limit
  obtain ⟨o, hopen, rfl⟩ := map_eq_ok_iff.1 hopening
  have hnext : next? .closeParen o.rest = none := next?_eq_none_iff.2 hholds
  obtain ⟨(xs : Parsed o.rest.length _), hread, rfl, hsingle⟩ :=
    m.repeats.eq_ok hpast hfinal hends
  have hcount : m.miscount xs = none := m.miscount_eq_none fun hnot => hsingle (honly hnot)
  dsimp only [Parsed.point] at hread
  rw [hsteps, Members.readNode, hopen]
  simp only [hnext, hread, hcount]
  exact hclosing

end Nodes

section Faults

variable {limit : Nat} {tokens : List Token} {c c' : Call} {callers : List Call} {s next : Point}
  {err : Located}

/-- Operands behind bars fail as the one that cannot be read. -/
theorem readBarred_eq_error
    (hpast : Past limit .operand .fieldSep s next)
    (hoperand : Call.outcome limit ⟨.operand, next⟩ = .error err)
    {bar : Token} (hbar : bar.kind = .fieldSep) (hspan : bar.span = s.last) (last : Span) :
    readBarred limit s.depth last (bar :: s.ahead) = .error err := by
  induction hpast generalizing bar last with
  | none =>
      rw [readBarred, if_pos hbar, hspan, map_eq_error_iff.1 hoperand]
  | more hmember hahead hseparator _ ih =>
      obtain ⟨p, hread, rfl⟩ := map_eq_ok_iff.1 hmember
      have hmore := ih hoperand hseparator rfl p.last
      dsimp only [Parsed.point] at hmore hahead
      rw [← hahead] at hmore
      rw [readBarred, if_pos hbar, hspan, hread]
      simp only [hmore]

/-- Operands behind bars fail only as one of them does, those before it being read. -/
theorem exists_past_of_readBarred
    (depth : Nat) (last : Span) :
    ∀ {tokens : List Token}, readBarred limit depth last tokens = .error err →
      ∃ bar ts next, tokens = bar :: ts ∧ bar.kind = .fieldSep ∧
        Past limit .operand .fieldSep ⟨depth, bar.span, ts⟩ next ∧
        Call.outcome limit ⟨.operand, next⟩ = .error err
  | [], hread => by
      rw [readBarred] at hread
      cases hread
  | bar :: ts, hread => by
      rw [readBarred] at hread
      by_cases hbar : bar.kind = .fieldSep
      · rw [if_pos hbar] at hread
        cases hoperand : readOperand limit depth bar.span ts with
        | error err' =>
            rw [hoperand] at hread
            obtain rfl := Except.error.inj hread
            exact ⟨bar, ts, _, rfl, hbar, .none, map_eq_error_iff.2 hoperand⟩
        | ok x =>
            have hfewer := x.fewer
            rw [hoperand] at hread
            dsimp only at hread
            cases hmore : readBarred limit x.depth x.last x.rest with
            | ok xs =>
                rw [hmore] at hread
                cases hread
            | error err' =>
                rw [hmore] at hread
                rw [Except.error.inj hread] at hmore
                obtain ⟨bar', ts', next, hrest, hbar', hpast, hfails⟩ :=
                  exists_past_of_readBarred x.depth x.last hmore
                have hmember : Call.outcome limit ⟨.operand, ⟨depth, bar.span, ts⟩⟩ = .ok x.point :=
                  map_eq_ok_iff.2 ⟨x, hoperand, rfl⟩
                exact ⟨bar, ts, next, rfl, hbar, .more hmember hrest hbar' hpast, hfails⟩
      · rw [if_neg hbar] at hread
        cases hread
termination_by tokens => tokens.length
decreasing_by
  simp only [List.length_cons]
  omega

/-- **A call fails as one that it makes.** -/
theorem Call.Makes.outcome_eq_error
    (hmakes : c.Makes limit c') (hfails : c'.outcome limit = .error err) :
    c.outcome limit = .error err := by
  cases hmakes with
  | opening hnode =>
      exact hnode.outcome_of_opening hfails
  | member hnode hopening hholds hpast =>
      exact hnode.outcome_of_member hopening hholds hpast hfails
  | closing hnode hopening hholds hpast hfinal hends honly =>
      exact hnode.outcome_of_closing hopening hholds hpast hfinal hends honly hfails
  | @operand holder s next t bar ts op hahead hhead hplain hbar hpast =>
      obtain ⟨depth, last, ahead⟩ := s
      obtain rfl : ahead = t :: bar :: ts := hahead
      have hread := readBarred_eq_error hpast hfails hbar rfl t.span
      dsimp only at hread
      simp only [Call.outcome]
      rw [map_eq_error_iff, readExpr]
      simp only [hhead, hplain, readOperation, hread]
  | @group s t ts op connective hahead hhead hconnective hopening =>
      obtain ⟨depth, last, ahead⟩ := s
      obtain rfl : ahead = t :: ts := hahead
      have hread := map_eq_error_iff.1 hfails
      dsimp only at hread
      simp only [Call.outcome]
      rw [map_eq_error_iff, readOperand_group hhead hconnective hopening, map_eq_error_iff, hread]

/-- **The calls in progress are made:** when one of them fails, the whole reading does. -/
theorem InProgress.readTokens_eq_error
    (hcalls : InProgress limit tokens (c :: callers))
    (hfails : c.outcome limit = .error err) :
    readTokens limit tokens = .error err := by
  generalize hstack : c :: callers = stack at hcalls
  induction hcalls generalizing c callers with
  | @first htokens =>
      obtain ⟨rfl, rfl⟩ := List.cons.inj hstack
      have hread := map_eq_error_iff.1 hfails
      dsimp only at hread
      cases tokens with
      | nil =>
          exact absurd rfl htokens
      | cons t ts =>
          simp only [readTokens, hread]
  | next _ hmakes ih =>
      obtain ⟨rfl, rfl⟩ := List.cons.inj hstack
      exact ih (hmakes.outcome_eq_error hfails) rfl

theorem readOpening_eq_error_tooDeep
    {depth n : Nat} {keyword : Connective} {last : Span}
    (hread : readOpening limit keyword depth last tokens = .error err)
    (hdeep : err.fault = .tooDeep n) :
    StartsWith .openParen tokens ∧ limit ≤ depth := by
  cases tokens with
  | nil =>
      obtain rfl := Except.error.inj hread
      cases hdeep
  | cons t ts =>
      simp only [readOpening] at hread
      split at hread
      · rename_i hkind
        split at hread
        · rename_i hfull
          exact ⟨hkind, Nat.le_of_lt_succ hfull⟩
        · cases hread
      · obtain rfl := Except.error.inj hread
        cases hdeep

theorem readClosing_ne_tooDeep
    {depth n : Nat} {keyword : Connective} {head : Span}
    (hread : readClosing keyword head depth tokens = .error err) :
    err.fault ≠ .tooDeep n := by
  cases tokens with
  | nil =>
      obtain rfl := Except.error.inj hread
      intro hdeep
      cases hdeep
  | cons t ts =>
      simp only [readClosing] at hread
      split at hread
      · cases hread
      · obtain rfl := Except.error.inj hread
        intro hdeep
        cases hdeep

variable {n : Nat}

/-- A node fails for its depth only as a call that it makes. -/
theorem Call.Node.exists_makes
    {keyword : Connective} {head : Span} {member : Reader}
    (hnode : c.Node keyword head s member)
    (hfails : c.outcome limit = .error err) (hdeep : err.fault = .tooDeep n) :
    ∃ c', c.Makes limit c' ∧ c'.outcome limit = .error err := by
  obtain ⟨m, hsteps⟩ := hnode.exists_members limit
  rw [hsteps, Members.readNode] at hfails
  split at hfails
  · rename_i err' hopen
    obtain rfl := Except.error.inj hfails
    exact ⟨_, .opening hnode, map_eq_error_iff.2 hopen⟩
  rename_i o hopen
  have hopening : Call.outcome limit ⟨.opening keyword, s⟩ = .ok o.point :=
    map_eq_ok_iff.2 ⟨o, hopen, rfl⟩
  split at hfails
  · rename_i close _
    obtain rfl := Except.error.inj hfails
    exact absurd hdeep (m.empty_ne_tooDeep close n)
  rename_i hnext
  split at hfails
  · rename_i err' hread
    obtain rfl := Except.error.inj hfails
    obtain ⟨next, hpast, hmember⟩ := m.repeats.exists_past (s := o.point) hread
    exact ⟨_, .member hnode hopening (next?_eq_none_iff.1 hnext) hpast, hmember⟩
  split at hfails
  · rename_i err' hcount
    obtain rfl := Except.error.inj hfails
    exact absurd hdeep (m.miscount_ne_tooDeep hcount n)
  · exact absurd hdeep (readClosing_ne_tooDeep (map_eq_error_iff.1 hfails))

theorem literalFault_ne_tooDeep
    (holder : Option Connective) (l : Literal) (span : Span) (ahead : List Token) :
    (literalFault holder l span ahead).fault ≠ .tooDeep n := by
  intro hdeep
  unfold literalFault at hdeep
  cases holder <;> dsimp only at hdeep <;> split at hdeep <;> cases hdeep

/-- What follows an operator without a node fails for its depth only as its operands do. -/
theorem readBarred_eq_error_of_readOperation
    {op : Operator} {head : Span} {depth : Nat}
    (hread : readOperation limit op head depth tokens = .error err)
    (hdeep : err.fault = .tooDeep n) :
    readBarred limit depth head tokens = .error err := by
  rw [readOperation] at hread
  split at hread
  · rename_i err' hbarred
    obtain rfl := Except.error.inj hread
    exact hbarred
  split at hread
  · obtain rfl := Except.error.inj hread
    cases hdeep
  split at hread
  · cases hread
  · obtain rfl := Except.error.inj hread
    cases hdeep

variable {depth : Nat} {last : Span}

/-- An expression fails for its depth only as a call that its reader makes. -/
theorem exists_makes_of_readExpr
    {holder : Option Connective}
    (hread : readExpr limit holder depth last tokens = .error err)
    (hdeep : err.fault = .tooDeep n) :
    ∃ c', Call.Makes limit ⟨.expr holder, ⟨depth, last, tokens⟩⟩ c' ∧
      c'.outcome limit = .error err := by
  cases tokens with
  | nil =>
      rw [readExpr] at hread
      rw [← Except.error.inj hread] at hdeep
      cases hdeep
  | cons t ts =>
      cases hkind : t.kind with
      | operator op =>
          cases hconnective : op.connective? with
          | some keyword =>
              have hnode : Call.Node ⟨.expr holder, ⟨depth, last, t :: ts⟩⟩ keyword t.span _ _ :=
                .expr rfl hkind hconnective
              exact hnode.exists_makes (map_eq_error_iff.2 hread) hdeep
          | none =>
              rw [readExpr] at hread
              simp only [hkind, hconnective] at hread
              obtain ⟨bar, us, next, rfl, hbar, hpast, hmember⟩ :=
                exists_past_of_readBarred depth t.span
                  (readBarred_eq_error_of_readOperation hread hdeep)
              exact ⟨_, .operand rfl hkind hconnective hbar hpast, hmember⟩
      | literal l =>
          rw [readExpr] at hread
          simp only [hkind] at hread
          rw [← Except.error.inj hread] at hdeep
          exact absurd hdeep (literalFault_ne_tooDeep holder l t.span ts)
      | _ =>
          rw [readExpr] at hread
          simp only [hkind] at hread
          rw [← Except.error.inj hread] at hdeep
          cases hdeep

/-- An operand fails for its depth only as the group that it is. -/
theorem exists_makes_of_readOperand
    (hread : readOperand limit depth last tokens = .error err)
    (hdeep : err.fault = .tooDeep n) :
    ∃ c', Call.Makes limit ⟨.operand, ⟨depth, last, tokens⟩⟩ c' ∧
      c'.outcome limit = .error err := by
  cases tokens with
  | nil =>
      rw [readOperand] at hread
      rw [← Except.error.inj hread] at hdeep
      cases hdeep
  | cons t ts =>
      cases hkind : t.kind with
      | operator op =>
          cases hconnective : op.connective? with
          | some connective =>
              by_cases hopening : StartsWith .openParen ts
              · rw [readOperand_group hkind hconnective hopening, map_eq_error_iff] at hread
                exact ⟨_, .group rfl hkind hconnective hopening, map_eq_error_iff.2 hread⟩
              · rw [readOperand] at hread
                simp [hkind, hconnective, next?_eq_none_iff.2 hopening] at hread
          | none =>
              rw [readOperand] at hread
              simp [hkind, hconnective] at hread
      | literal l =>
          rw [readOperand] at hread
          simp [hkind] at hread
      | _ =>
          rw [readOperand] at hread
          simp only [hkind] at hread
          rw [← Except.error.inj hread] at hdeep
          cases hdeep

/-- Nothing but an opening parenthesis fails for its depth by itself. -/
theorem Call.exists_makes
    (hwhole : ∀ keyword, c.reader ≠ .opening keyword)
    (hfails : c.outcome limit = .error err) (hdeep : err.fault = .tooDeep n) :
    ∃ c', c.Makes limit c' ∧ c'.outcome limit = .error err := by
  obtain ⟨reader, depth, last, ahead⟩ := c
  cases reader with
  | expr holder =>
      exact exists_makes_of_readExpr (map_eq_error_iff.1 hfails) hdeep
  | operand =>
      exact exists_makes_of_readOperand (map_eq_error_iff.1 hfails) hdeep
  | group connective head =>
      exact Call.Node.group.exists_makes hfails hdeep
  | opening keyword =>
      exact absurd rfl (hwhole keyword)
  | closing keyword head =>
      exact absurd hdeep (readClosing_ne_tooDeep (map_eq_error_iff.1 hfails))

end Faults

end FieldQuery
