import FieldQuery.Json
import FieldQuery.Proofs.NumberTexts

/-!
# Compact JSON texts can be read in one way

The text of a value shows where it ends: a number where its characters end, every other
value by its own last character.  So two values with one text in front of whatever may
follow them are equal, and the same follows them.  The numbers must be finite, for the
others are written as null.

**Results.**

* `writeString_append_inj`: the end of a string, whatever its characters;
* `betweenCommas_append_inj`: the end of a list of items between commas;
* `Exact.writeCompact_append_inj`: the end of a value;
* `Exact.compact_injective`: no two values have one text.
-/

namespace FieldQuery

namespace Json

variable {rest rest' : List Char}

/-- No number goes on. -/
def Ends (cs : List Char) : Prop :=
  ∀ c ∈ cs.head?, isNumeral c = false

/-- All numbers in a value are finite. -/
inductive Exact : Json → Prop
  | null :
      Exact null
  | bool
      (b : Bool) :
      Exact (bool b)
  | integer
      (n : Int) :
      Exact (integer n)
  | float
      {x : Binary64}
      (hfinite : x.isFinite = true) :
      Exact (float x)
  | string
      (s : String) :
      Exact (string s)
  | array
      {items : List Json}
      (hitems : ∀ item ∈ items, Exact item) :
      Exact (array items)
  | object
      {members : List (String × Json)}
      (hmembers : ∀ member ∈ members, Exact member.2) :
      Exact (object members)

section Strings

/-- The characters that do not stand for themselves inside a string. -/
def escaped : List Char :=
  '"' :: '\\' :: (List.range 32).map Char.ofNat

theorem mem_escaped_of_lt
    {c : Char} (hc : c.toNat < 32) :
    c ∈ escaped := by
  refine List.mem_cons_of_mem _ (List.mem_cons_of_mem _ ?_)
  exact List.mem_map.2 ⟨c.toNat, List.mem_range.2 hc, Char.ofNat_toNat c⟩

theorem escapeChar_of_not_mem
    {c : Char} (hc : c ∉ escaped) :
    escapeChar c = [c] := by
  have hne : ∀ d ∈ escaped, c ≠ d := fun d hd heq => hc (heq ▸ hd)
  have hle : ¬ c.toNat < 0x20 := fun hlt => hc (mem_escaped_of_lt hlt)
  unfold escapeChar
  rw [if_neg (hne _ (by decide)), if_neg (hne _ (by decide)), if_neg (hne _ (by decide)),
    if_neg (hne _ (by decide)), if_neg (hne _ (by decide)), if_neg (hne _ (by decide)),
    if_neg (hne _ (by decide)), if_neg hle]

/-- An escape begins with a backslash, and none begins another one. -/
theorem all_escapeChar :
    escaped.all (fun c => (escapeChar c).head? == some '\\' &&
      escaped.all fun d => !(escapeChar c).isPrefixOf (escapeChar d) || c == d) = true := by
  decide +kernel

theorem escapeChar_of_mem
    {c : Char} (hc : c ∈ escaped) :
    (escapeChar c).head? = some '\\' ∧
      ∀ d ∈ escaped, escapeChar c <+: escapeChar d → c = d := by
  have hall := List.all_eq_true.1 all_escapeChar c hc
  simp only [Bool.and_eq_true, beq_iff_eq, List.all_eq_true, Bool.or_eq_true,
    Bool.not_eq_true', ← Bool.not_eq_true, List.isPrefixOf_iff_prefix] at hall
  exact ⟨hall.1, fun d hd hprefix => (hall.2 d hd).resolve_left (not_not.2 hprefix)⟩

/-- No character is written as a quote. -/
theorem escapeChar_append_ne
    (c : Char) :
    escapeChar c ++ rest ≠ '"' :: rest' := by
  intro htext
  by_cases hc : c ∈ escaped
  · have hhead := (escapeChar_of_mem hc).1
    obtain ⟨cs, hcs⟩ := List.head?_eq_some_iff.1 hhead
    rw [hcs, List.cons_append] at htext
    exact absurd (List.cons.inj htext).1 (by decide)
  · rw [escapeChar_of_not_mem hc] at htext
    obtain rfl := (List.cons.inj htext).1
    exact hc List.mem_cons_self

/-- **The end of a character** inside a string. -/
theorem escapeChar_append_inj
    {c d : Char} (htext : escapeChar c ++ rest = escapeChar d ++ rest') :
    c = d ∧ rest = rest' := by
  have hplain : ∀ c d : Char, ∀ rest rest' : List Char, c ∈ escaped → d ∉ escaped →
      escapeChar c ++ rest ≠ escapeChar d ++ rest' := by
    intro c d rest rest' hc hd htext
    obtain ⟨cs, hcs⟩ := List.head?_eq_some_iff.1 (escapeChar_of_mem hc).1
    rw [hcs, escapeChar_of_not_mem hd, List.cons_append] at htext
    obtain rfl := (List.cons.inj htext).1
    exact hd (by decide)
  suffices heq : c = d by
    subst heq
    exact ⟨rfl, List.append_cancel_left htext⟩
  by_cases hc : c ∈ escaped
  · by_cases hd : d ∈ escaped
    · rcases List.append_eq_append_iff.1 htext with ⟨more, hmore, -⟩ | ⟨more, hmore, -⟩
      · exact (escapeChar_of_mem hc).2 d hd ⟨more, hmore.symm⟩
      · exact ((escapeChar_of_mem hd).2 c hc ⟨more, hmore.symm⟩).symm
    · exact absurd htext (hplain c d _ _ hc hd)
  · by_cases hd : d ∈ escaped
    · exact absurd htext.symm (hplain d c _ _ hd hc)
    · rw [escapeChar_of_not_mem hc, escapeChar_of_not_mem hd] at htext
      exact (List.cons.inj htext).1

theorem flatMap_escapeChar_append_inj
    {cs ds : List Char}
    (htext : cs.flatMap escapeChar ++ '"' :: rest = ds.flatMap escapeChar ++ '"' :: rest') :
    cs = ds ∧ rest = rest' := by
  induction cs generalizing ds with
  | nil =>
      cases ds with
      | nil =>
          exact ⟨rfl, (List.cons.inj htext).2⟩
      | cons d ds =>
          rw [List.flatMap_cons, List.append_assoc] at htext
          exact absurd htext.symm (escapeChar_append_ne d)
  | cons c cs ih =>
      rw [List.flatMap_cons, List.append_assoc] at htext
      cases ds with
      | nil =>
          exact absurd htext (escapeChar_append_ne c)
      | cons d ds =>
          rw [List.flatMap_cons, List.append_assoc] at htext
          obtain ⟨rfl, hmore⟩ := escapeChar_append_inj htext
          obtain ⟨rfl, hrest⟩ := ih hmore
          exact ⟨rfl, hrest⟩

/-- **The end of a string**, whatever its characters. -/
theorem writeString_append_inj
    {s t : String} (htext : writeString s ++ rest = writeString t ++ rest') :
    s = t ∧ rest = rest' := by
  simp only [writeString, List.cons_append, List.append_assoc, List.nil_append] at htext
  obtain ⟨hchars, hrest⟩ := flatMap_escapeChar_append_inj (List.cons.inj htext).2
  exact ⟨String.toList_inj.1 hchars, hrest⟩

end Strings

section Items

variable {α : Type} {write : α → List Char}

/-- The texts of the items behind the first, each behind a comma. -/
def behindCommas (write : α → List Char) (as : List α) : List Char :=
  as.flatMap fun a => ',' :: write a

theorem ends_behindCommas
    {stop : Char} (hstop : isNumeral stop = false) (as : List α) :
    Ends (behindCommas write as ++ stop :: rest) := by
  cases as with
  | nil =>
      intro c hc
      obtain rfl : stop = c := by simpa [behindCommas] using hc
      exact hstop
  | cons a as =>
      intro c hc
      obtain rfl : ',' = c := by simpa [behindCommas] using hc
      rfl

/-- **The end of items behind commas**, if the end of each of them shows. -/
theorem behindCommas_append_inj
    {stop : Char} {as bs : List α} (hstop : isNumeral stop = false) (hcomma : stop ≠ ',')
    (hread : ∀ a ∈ as, ∀ b ∈ bs, ∀ rest rest', Ends rest → Ends rest' →
      write a ++ rest = write b ++ rest' → a = b ∧ rest = rest')
    (htext : behindCommas write as ++ stop :: rest = behindCommas write bs ++ stop :: rest') :
    as = bs ∧ rest = rest' := by
  induction as generalizing bs with
  | nil =>
      cases bs with
      | nil =>
          exact ⟨rfl, (List.cons.inj htext).2⟩
      | cons b bs =>
          exact absurd (List.cons.inj htext).1 hcomma
  | cons a as ih =>
      cases bs with
      | nil =>
          exact absurd (List.cons.inj htext).1.symm hcomma
      | cons b bs =>
          simp only [behindCommas, List.flatMap_cons, List.cons_append, List.append_assoc] at htext
          obtain ⟨rfl, hmore⟩ := hread a List.mem_cons_self b List.mem_cons_self _ _
            (ends_behindCommas hstop as) (ends_behindCommas hstop bs) (List.cons.inj htext).2
          obtain ⟨rfl, hrest⟩ := ih
            (fun a ha b hb => hread a (List.mem_cons_of_mem _ ha) b (List.mem_cons_of_mem _ hb))
            hmore
          exact ⟨rfl, hrest⟩

/-- The texts of items, a comma between any two. -/
def betweenCommas (write : α → List Char) : List α → List Char
  | [] => []
  | a :: as => write a ++ behindCommas write as

/-- **The end of items between commas**, if none of them begins like what stops them. -/
theorem betweenCommas_append_inj
    {stop : Char} {as bs : List α} (hstop : isNumeral stop = false) (hcomma : stop ≠ ',')
    (hread : ∀ a ∈ as, ∀ b ∈ bs, ∀ rest rest', Ends rest → Ends rest' →
      write a ++ rest = write b ++ rest' → a = b ∧ rest = rest')
    (hstart : ∀ a, a ∈ as ∨ a ∈ bs → ∃ c cs, write a = c :: cs ∧ c ≠ stop)
    (htext : betweenCommas write as ++ stop :: rest = betweenCommas write bs ++ stop :: rest') :
    as = bs ∧ rest = rest' := by
  have hne : ∀ a, a ∈ as ∨ a ∈ bs → ∀ cs ds : List Char, write a ++ cs ≠ stop :: ds := by
    intro a ha cs ds htext
    obtain ⟨c, more, hwrite, hother⟩ := hstart a ha
    rw [hwrite] at htext
    exact hother (List.cons.inj htext).1
  cases as with
  | nil =>
      cases bs with
      | nil =>
          exact ⟨rfl, (List.cons.inj htext).2⟩
      | cons b bs =>
          rw [betweenCommas, betweenCommas, List.append_assoc] at htext
          exact absurd htext.symm (hne b (.inr List.mem_cons_self) _ _)
  | cons a as =>
      cases bs with
      | nil =>
          rw [betweenCommas, betweenCommas, List.append_assoc] at htext
          exact absurd htext (hne a (.inl List.mem_cons_self) _ _)
      | cons b bs =>
          rw [betweenCommas, betweenCommas, List.append_assoc, List.append_assoc] at htext
          obtain ⟨rfl, hmore⟩ := hread a List.mem_cons_self b List.mem_cons_self _ _
            (ends_behindCommas hstop as) (ends_behindCommas hstop bs) htext
          obtain ⟨rfl, hrest⟩ := behindCommas_append_inj hstop hcomma
            (fun a ha b hb => hread a (List.mem_cons_of_mem _ ha) b (List.mem_cons_of_mem _ hb))
            hmore
          exact ⟨rfl, hrest⟩

end Items

/-- A member of an object: its name, a colon and its value. -/
def writeMember (member : String × Json) : List Char :=
  writeString member.1 ++ ':' :: writeCompact member.2

theorem writeItems_eq
    (items : List Json) :
    writeItems items = betweenCommas writeCompact items := by
  induction items with
  | nil =>
      rfl
  | cons item items ih =>
      cases items with
      | nil =>
          simp [writeItems, betweenCommas, behindCommas]
      | cons next items =>
          rw [writeItems, ih]
          · simp [betweenCommas, behindCommas]
          · simp

theorem writeMembers_eq
    (members : List (String × Json)) :
    writeMembers members = betweenCommas writeMember members := by
  induction members with
  | nil =>
      rfl
  | cons member members ih =>
      obtain ⟨name, value⟩ := member
      cases members with
      | nil =>
          simp [writeMembers, betweenCommas, behindCommas, writeMember]
      | cons next members =>
          rw [writeMembers, ih]
          · simp [betweenCommas, behindCommas, writeMember]
          · simp

section Starts

/-- What a text begins with: the letter of a word, or a mark of one kind of value. -/
inductive Start where
  | word (c : Char)
  | number
  | string
  | array
  | object

namespace Start

/-- What a character begins. -/
def ofChar (c : Char) : Start :=
  if c = '"' then string
  else if c = '[' then array
  else if c = '\x7b' then object
  else if isNumeral c then number
  else word c

theorem ofChar_of_isNumeral
    {c : Char} (hc : isNumeral c = true) :
    ofChar c = number := by
  have hne : ∀ d : Char, isNumeral d = false → c ≠ d := by
    rintro d hd rfl
    rw [hc] at hd
    cases hd
  unfold ofChar
  rw [if_neg (hne _ rfl), if_neg (hne _ rfl), if_neg (hne _ rfl), if_pos hc]

end Start

/-- What a value begins with. -/
def start : Json → Start
  | null => .word 'n'
  | bool true => .word 't'
  | bool false => .word 'f'
  | integer _ | float _ => .number
  | string _ => .string
  | array _ => .array
  | object _ => .object

theorem start_of_isNumeral
    {cs : List Char} (hne : cs ≠ []) (hall : ∀ c ∈ cs, isNumeral c = true) :
    ∃ d ds, cs = d :: ds ∧ Start.ofChar d = .number := by
  obtain ⟨d, ds, rfl⟩ := List.exists_cons_of_ne_nil hne
  exact ⟨d, ds, rfl, Start.ofChar_of_isNumeral (hall d List.mem_cons_self)⟩

theorem writeCompact_float
    {x : Binary64} (hfinite : x.isFinite = true) :
    (Json.float x).writeCompact = (x.write Layout.interchange).toList :=
  if_pos hfinite

/-- **The first character of a text** shows the kind of the value. -/
theorem Exact.start_writeCompact
    {j : Json} (hj : Exact j) :
    ∃ c cs, j.writeCompact = c :: cs ∧ Start.ofChar c = j.start := by
  cases hj with
  | null => exact ⟨_, _, rfl, rfl⟩
  | bool b =>
      cases b with
      | true => exact ⟨_, _, rfl, rfl⟩
      | false => exact ⟨_, _, rfl, rfl⟩
  | integer n =>
      exact start_of_isNumeral (intText_ne_nil n) fun _ => isNumeral_of_mem_intText
  | @float x hfinite =>
      rw [writeCompact_float hfinite]
      refine start_of_isNumeral ?_ fun _ => Binary64.isNumeral_of_mem_write hfinite
      exact (@Binary64.exists_mark_write _ x hfinite).elim List.ne_nil_of_mem List.ne_nil_of_mem
  | string s => exact ⟨_, _, rfl, rfl⟩
  | array hitems => exact ⟨_, _, rfl, rfl⟩
  | object hmembers => exact ⟨_, _, rfl, rfl⟩

/-- Two values with one text in front of what follows are of one kind. -/
theorem Exact.start_eq
    {j k : Json} (hj : Exact j) (hk : Exact k)
    (htext : j.writeCompact ++ rest = k.writeCompact ++ rest') :
    j.start = k.start := by
  obtain ⟨c, cs, hjtext, hjstart⟩ := hj.start_writeCompact
  obtain ⟨d, ds, hktext, hkstart⟩ := hk.start_writeCompact
  rw [hjtext, hktext] at htext
  rw [← hjstart, ← hkstart, (List.cons.inj htext).1]

variable {j k : Json}

/-- Only three words are values. -/
theorem eq_word_of_start
    {c : Char} (hj : j.start = .word c) :
    j = null ∧ c = 'n' ∨ j = bool true ∧ c = 't' ∨ j = bool false ∧ c = 'f' := by
  cases j with
  | null =>
      exact .inl ⟨rfl, (Start.word.inj hj).symm⟩
  | bool b =>
      cases b with
      | true => exact .inr (.inl ⟨rfl, (Start.word.inj hj).symm⟩)
      | false => exact .inr (.inr ⟨rfl, (Start.word.inj hj).symm⟩)
  | _ =>
      cases hj

theorem eq_of_start_word
    {c : Char} (hj : j.start = .word c) (hk : k.start = .word c) :
    j = k := by
  rcases eq_word_of_start hj with ⟨rfl, rfl⟩ | ⟨rfl, rfl⟩ | ⟨rfl, rfl⟩ <;>
    rcases eq_word_of_start hk with ⟨rfl, hc⟩ | ⟨rfl, hc⟩ | ⟨rfl, hc⟩ <;>
      first | rfl | exact absurd hc (by decide)

/-- No value begins like the end of a list. -/
theorem Exact.exists_first
    (hj : Exact j) :
    ∃ c cs, j.writeCompact = c :: cs ∧ c ≠ ']' := by
  obtain ⟨c, cs, htext, hstart⟩ := hj.start_writeCompact
  refine ⟨c, cs, htext, ?_⟩
  rintro rfl
  rcases eq_word_of_start hstart.symm with ⟨-, hc⟩ | ⟨-, hc⟩ | ⟨-, hc⟩ <;>
    exact absurd hc (by decide)

theorem eq_number_of_start
    (hk : k.start = .number) :
    (∃ n, k = integer n) ∨ ∃ x, k = float x := by
  cases k with
  | integer n => exact .inl ⟨n, rfl⟩
  | float x => exact .inr ⟨x, rfl⟩
  | bool b => cases b <;> cases hk
  | _ => cases hk

theorem eq_string_of_start
    (hk : k.start = .string) :
    ∃ s, k = string s := by
  cases k with
  | string s => exact ⟨s, rfl⟩
  | bool b => cases b <;> cases hk
  | _ => cases hk

theorem eq_array_of_start
    (hk : k.start = .array) :
    ∃ items, k = array items := by
  cases k with
  | array items => exact ⟨items, rfl⟩
  | bool b => cases b <;> cases hk
  | _ => cases hk

theorem eq_object_of_start
    (hk : k.start = .object) :
    ∃ members, k = object members := by
  cases k with
  | object members => exact ⟨members, rfl⟩
  | bool b => cases b <;> cases hk
  | _ => cases hk

end Starts

variable {j k : Json}

/-- **The end of a number** shows where its characters end. -/
theorem isNumeral_append_inj
    {cs ds : List Char} (hcs : ∀ c ∈ cs, isNumeral c = true) (hds : ∀ d ∈ ds, isNumeral d = true)
    (hrest : Ends rest) (hrest' : Ends rest') (htext : cs ++ rest = ds ++ rest') :
    cs = ds ∧ rest = rest' := by
  have hfront := takeWhile_append_of_head? hcs hrest
  have hback := dropWhile_append_of_head? hcs hrest
  rw [htext, takeWhile_append_of_head? hds hrest'] at hfront
  rw [htext, dropWhile_append_of_head? hds hrest'] at hback
  exact ⟨hfront.symm, hback.symm⟩

theorem Exact.isNumeral_of_number
    (hj : Exact j) (hstart : j.start = .number) :
    ∀ c ∈ j.writeCompact, isNumeral c = true := by
  rcases eq_number_of_start hstart with ⟨n, rfl⟩ | ⟨x, rfl⟩
  · exact fun _ => isNumeral_of_mem_intText
  · cases hj with
    | float hfinite =>
        rw [writeCompact_float hfinite]
        exact fun _ => Binary64.isNumeral_of_mem_write hfinite

/-- **An integer, or a finite number, is the only number of its text.** -/
theorem Exact.number_inj
    (hj : Exact j) (hk : Exact k) (hjstart : j.start = .number) (hkstart : k.start = .number)
    (htext : j.writeCompact = k.writeCompact) :
    j = k := by
  rcases eq_number_of_start hjstart with ⟨m, rfl⟩ | ⟨x, rfl⟩
  · rcases eq_number_of_start hkstart with ⟨n, rfl⟩ | ⟨y, rfl⟩
    · rw [intText_injective htext]
    · cases hk with
      | float hy =>
          rw [writeCompact_float hy] at htext
          exact absurd htext (intText_ne_write m hy)
  · cases hj with
    | float hx =>
        rcases eq_number_of_start hkstart with ⟨n, rfl⟩ | ⟨y, rfl⟩
        · rw [writeCompact_float hx] at htext
          exact absurd htext.symm (intText_ne_write n hx)
        · cases hk with
          | float hy =>
              rw [writeCompact_float hx, writeCompact_float hy] at htext
              rw [Binary64.write_injective hx hy (String.toList_inj.1 htext)]

theorem Exact.number_append_inj
    (hj : Exact j) (hk : Exact k) (hjstart : j.start = .number) (hkstart : k.start = .number)
    (hrest : Ends rest) (hrest' : Ends rest')
    (htext : j.writeCompact ++ rest = k.writeCompact ++ rest') :
    j = k ∧ rest = rest' := by
  obtain ⟨hnumber, hmore⟩ := isNumeral_append_inj (hj.isNumeral_of_number hjstart)
    (hk.isNumeral_of_number hkstart) hrest hrest' htext
  exact ⟨hj.number_inj hk hjstart hkstart hnumber, hmore⟩

theorem writeMember_append_inj
    {m n : String × Json}
    (hread : ∀ {rest rest' : List Char}, Ends rest → Ends rest' →
      m.2.writeCompact ++ rest = n.2.writeCompact ++ rest' → m.2 = n.2 ∧ rest = rest')
    (hrest : Ends rest) (hrest' : Ends rest')
    (htext : writeMember m ++ rest = writeMember n ++ rest') :
    m = n ∧ rest = rest' := by
  simp only [writeMember, List.append_assoc, List.cons_append] at htext
  obtain ⟨hname, hvalue⟩ := writeString_append_inj htext
  obtain ⟨hvalue, hmore⟩ := hread hrest hrest' (List.cons.inj hvalue).2
  exact ⟨Prod.ext hname hvalue, hmore⟩

/-- **The end of a value**, if its numbers are finite. -/
theorem Exact.writeCompact_append_inj
    (hj : Exact j) (hk : Exact k) (hrest : Ends rest) (hrest' : Ends rest')
    (htext : j.writeCompact ++ rest = k.writeCompact ++ rest') :
    j = k ∧ rest = rest' := by
  induction hj generalizing k rest rest' with
  | null =>
      have hstart := Exact.null.start_eq hk htext
      obtain rfl := eq_of_start_word (Eq.refl (start Json.null)) hstart.symm
      exact ⟨rfl, List.append_cancel_left htext⟩
  | bool b =>
      have hstart := (Exact.bool b).start_eq hk htext
      obtain rfl : Json.bool b = k := by
        cases b with
        | true => exact eq_of_start_word (Eq.refl (start (Json.bool true))) hstart.symm
        | false => exact eq_of_start_word (Eq.refl (start (Json.bool false))) hstart.symm
      exact ⟨rfl, List.append_cancel_left htext⟩
  | integer n =>
      have hstart := ((Exact.integer n).start_eq hk htext).symm
      exact (Exact.integer n).number_append_inj hk rfl hstart hrest hrest' htext
  | float hfinite =>
      have hstart := ((Exact.float hfinite).start_eq hk htext).symm
      exact (Exact.float hfinite).number_append_inj hk rfl hstart hrest hrest' htext
  | string s =>
      obtain ⟨t, rfl⟩ := eq_string_of_start ((Exact.string s).start_eq hk htext).symm
      obtain ⟨rfl, hmore⟩ := writeString_append_inj htext
      exact ⟨rfl, hmore⟩
  | @array items hitems ih =>
      obtain ⟨items', rfl⟩ := eq_array_of_start ((Exact.array hitems).start_eq hk htext).symm
      cases hk with
      | array hitems' =>
          simp only [writeCompact, writeItems_eq, List.cons_append, List.append_assoc,
            List.nil_append] at htext
          have hread : ∀ a ∈ items, ∀ b ∈ items', ∀ rest rest', Ends rest → Ends rest' →
              a.writeCompact ++ rest = b.writeCompact ++ rest' → a = b ∧ rest = rest' :=
            fun a ha b hb _ _ => ih a ha (hitems' b hb)
          have hfirst : ∀ a, a ∈ items ∨ a ∈ items' →
              ∃ c cs, a.writeCompact = c :: cs ∧ c ≠ ']' :=
            fun a ha => (ha.elim (hitems a) (hitems' a)).exists_first
          obtain ⟨rfl, hmore⟩ := betweenCommas_append_inj rfl (by decide) hread hfirst
            (List.cons.inj htext).2
          exact ⟨rfl, hmore⟩
  | @object members hmembers ih =>
      obtain ⟨members', rfl⟩ := eq_object_of_start ((Exact.object hmembers).start_eq hk htext).symm
      cases hk with
      | object hmembers' =>
          simp only [writeCompact, writeMembers_eq, List.cons_append, List.append_assoc,
            List.nil_append] at htext
          have hread : ∀ m ∈ members, ∀ n ∈ members', ∀ rest rest', Ends rest → Ends rest' →
              writeMember m ++ rest = writeMember n ++ rest' → m = n ∧ rest = rest' :=
            fun m hm n hn _ _ => writeMember_append_inj (ih m hm (hmembers' n hn))
          have hfirst : ∀ m, m ∈ members ∨ m ∈ members' →
              ∃ c cs, writeMember m = c :: cs ∧ c ≠ '\x7d' :=
            fun m _ => ⟨'"', _, rfl, by decide⟩
          obtain ⟨rfl, hmore⟩ := betweenCommas_append_inj rfl (by decide) hread hfirst
            (List.cons.inj htext).2
          exact ⟨rfl, hmore⟩

/-- **No two values have one compact text**, if their numbers are finite. -/
theorem Exact.compact_injective
    (hj : Exact j) (hk : Exact k) (htext : j.compact = k.compact) :
    j = k := by
  have hchars : j.writeCompact ++ [] = k.writeCompact ++ [] := by
    rw [List.append_nil, List.append_nil]
    exact String.ofList_injective htext
  have hends : Ends [] := by
    intro c hc
    cases hc
  exact (hj.writeCompact_append_inj hk hends hends hchars).1

end Json

end FieldQuery
