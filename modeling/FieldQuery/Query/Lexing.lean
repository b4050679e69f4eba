import FieldQuery.Query.SyntaxError
import FieldQuery.Text.Characters

/-!
# Reading tokens

**Input**: a query text and the greatest number of tokens allowed.

**Output**: its tokens, or the first fault with its place.

**Algorithm**: white space is skipped; a delimiter is a token by itself; a quote
starts a literal that runs to the next quote without a backslash; anything else
is a word, which runs as far as it can and is an operator if it spells a keyword.
-/

namespace FieldQuery

/-- The deepest nesting of parentheses and the greatest number of tokens allowed. -/
structure Limits where
  maxDepth : Nat := 64
  maxTokens : Nat := 4096
deriving DecidableEq, Repr

/-- The characters that end a word. -/
def endsWord (c : Char) : Bool :=
  Text.isBlank c || c = '(' || c = ')' || c = '|' || c = '‖' || c = ',' || c = '"'

/-- A token's meaning and spelling, and the text behind it. -/
structure Lexeme where
  kind : TokenKind
  text : List Char
  rest : List Char

/--
The rest of a quoted literal, up to and including its closing quote: the text it
stands for, its spelling, and what follows.  A backslash before a quote or a
backslash gives that character; any other backslash stands for itself.
-/
def readToQuote : List Char → Option (List Char × List Char × List Char)
  | [] => none
  | '"' :: cs => some ([], ['"'], cs)
  | '\\' :: '"' :: cs =>
      (readToQuote cs).map fun (value, text, rest) =>
        ('"' :: value, '\\' :: '"' :: text, rest)
  | '\\' :: '\\' :: cs =>
      (readToQuote cs).map fun (value, text, rest) =>
        ('\\' :: value, '\\' :: '\\' :: text, rest)
  | c :: cs =>
      (readToQuote cs).map fun (value, text, rest) => (c :: value, c :: text, rest)

/-- What a word means: the operator it spells, or a bare literal. -/
def wordKind (word : String) : TokenKind :=
  match Operator.ofName? word with
  | some op => .operator op
  | none => .literal (.bare word)

/-- The token that starts with a character other than white space; none for an unclosed quote. -/
def readLexeme (c : Char) (cs : List Char) : Option Lexeme :=
  if c = '(' then some ⟨.openParen, [c], cs⟩
  else if c = ')' then some ⟨.closeParen, [c], cs⟩
  else if c = '|' then some ⟨.fieldSep, [c], cs⟩
  else if c = '‖' ∨ c = ',' then some ⟨.groupSep, [c], cs⟩
  else if c = '"' then
    (readToQuote cs).map fun (value, text, rest) =>
      ⟨.literal (.ofQuoted (String.ofList value)), c :: text, rest⟩
  else
    let word := c :: cs.takeWhile (! endsWord ·)
    some ⟨wordKind (String.ofList word), word, cs.dropWhile (! endsWord ·)⟩

/-- The spelling of a quoted literal and what follows it are the text that was read. -/
theorem readToQuote_append
    {cs value text rest : List Char}
    (hread : readToQuote cs = some (value, text, rest)) :
    text ++ rest = cs := by
  induction cs using readToQuote.induct generalizing value text rest with
  | case1 => simp [readToQuote] at hread
  | case2 cs =>
      simp [readToQuote] at hread
      obtain ⟨rfl, rfl, rfl⟩ := hread
      rfl
  | case3 cs ih =>
      rw [readToQuote] at hread
      obtain ⟨⟨v, t, r⟩, hrest, heq⟩ := Option.map_eq_some_iff.1 hread
      simp only [Prod.mk.injEq] at heq
      obtain ⟨rfl, rfl, rfl⟩ := heq
      simp [ih hrest]
  | case4 cs ih =>
      rw [readToQuote] at hread
      obtain ⟨⟨v, t, r⟩, hrest, heq⟩ := Option.map_eq_some_iff.1 hread
      simp only [Prod.mk.injEq] at heq
      obtain ⟨rfl, rfl, rfl⟩ := heq
      simp [ih hrest]
  | case5 c cs hquote hescape hbackslash ih =>
      rw [readToQuote] at hread
      · obtain ⟨⟨v, t, r⟩, hrest, heq⟩ := Option.map_eq_some_iff.1 hread
        obtain ⟨rfl, rfl, rfl⟩ : c :: v = value ∧ c :: t = text ∧ r = rest := by
          simpa using heq
        simp [ih hrest]
      all_goals assumption

/-- The spelling of a token starts with the character it was read from and goes on in the text. -/
theorem readLexeme_text
    {c : Char} {cs : List Char} {x : Lexeme}
    (hread : readLexeme c cs = some x) :
    ∃ tail, x.text = c :: tail ∧ tail ++ x.rest = cs := by
  unfold readLexeme at hread
  split at hread
  · obtain rfl := Option.some.inj hread
    exact ⟨[], rfl, rfl⟩
  split at hread
  · obtain rfl := Option.some.inj hread
    exact ⟨[], rfl, rfl⟩
  split at hread
  · obtain rfl := Option.some.inj hread
    exact ⟨[], rfl, rfl⟩
  split at hread
  · obtain rfl := Option.some.inj hread
    exact ⟨[], rfl, rfl⟩
  split at hread
  · obtain ⟨⟨v, t, r⟩, hrest, rfl⟩ := Option.map_eq_some_iff.1 hread
    exact ⟨t, rfl, readToQuote_append hrest⟩
  · obtain rfl := Option.some.inj hread
    exact ⟨_, rfl, List.takeWhile_append_dropWhile⟩

/-- The spelling of a token and what follows it are the text that was read. -/
theorem readLexeme_append
    {c : Char} {cs : List Char} {x : Lexeme}
    (hread : readLexeme c cs = some x) :
    x.text ++ x.rest = c :: cs := by
  obtain ⟨tail, htext, hrest⟩ := readLexeme_text hread
  rw [htext, List.cons_append, hrest]

/-- Reading a token uses up at least one character. -/
theorem readLexeme_rest_length
    {c : Char} {cs : List Char} {x : Lexeme}
    (hread : readLexeme c cs = some x) :
    x.rest.length ≤ cs.length := by
  obtain ⟨tail, _, hrest⟩ := readLexeme_text hread
  rw [← hrest, List.length_append]
  omega

/--
The tokens of a text that begins at byte `pos` of the query, while there is room
for more of them.
-/
def tokensFrom (limit room pos : Nat) : List Char → Except Located (List Token)
  | [] => .ok []
  | c :: cs =>
      if Text.isBlank c then
        tokensFrom limit room (pos + c.utf8Size) cs
      else
        match hread : readLexeme c cs with
        | none => .error ⟨.unterminatedQuote, .onward pos⟩
        | some x =>
            have := readLexeme_rest_length hread
            let token : Token := ⟨x.kind, String.ofList x.text, pos⟩
            match room with
            | 0 => .error ⟨.tooManyTokens limit, .within token.span⟩
            | room + 1 =>
                match tokensFrom limit room token.stop x.rest with
                | .error e => .error e
                | .ok tokens => .ok (token :: tokens)
termination_by cs => cs.length
decreasing_by
  · simp
  · simp only [List.length_cons]
    omega

/-- The tokens of a query, or its first fault. -/
def lex (limits : Limits) (query : String) : Except Located (List Token) :=
  tokensFrom limits.maxTokens limits.maxTokens 0 query.toList

/-- The tokens of a query, or its first fault as a syntax error. -/
def tokenize (limits : Limits) (query : String) : Except SyntaxError (List Token) :=
  (lex limits query).mapError (Located.toError query)

end FieldQuery
