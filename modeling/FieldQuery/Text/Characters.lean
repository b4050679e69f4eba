/-!
# Characters and bytes

A set of characters is written as an ascending list of closed ranges of code points.
White space is such a set: the twenty-five characters of the Unicode property
`White_Space`, whose extent is the same in every version of the standard since 4.1.

Positions in a text are counted in bytes of its UTF-8 form.  Texts are cut at byte
offsets, and a cut inside a character fails.
-/

namespace FieldQuery.Text

section Sets

/--
Membership of a code point in an ascending list of closed ranges.  It stops at the first
range that starts above the code point.
-/
def inRanges : List (Nat × Nat) → Nat → Bool
  | [], _ => false
  | (low, high) :: ranges, n =>
      if n < low then false
      else n ≤ high || inRanges ranges n

/-- The property `White_Space` as ranges of code points. -/
def blankRanges : List (Nat × Nat) :=
  [(0x09, 0x0D), (0x20, 0x20), (0x85, 0x85), (0xA0, 0xA0), (0x1680, 0x1680),
    (0x2000, 0x200A), (0x2028, 0x2029), (0x202F, 0x202F), (0x205F, 0x205F),
    (0x3000, 0x3000)]

/-- Whether a character is white space. -/
def isBlank (c : Char) : Bool :=
  inRanges blankRanges c.toNat

/-- Whether a text holds nothing but white space. -/
def allBlank (s : String) : Bool :=
  s.toList.all isBlank

end Sets

section Bytes

/-- The number of bytes of a text. -/
def byteLength (cs : List Char) : Nat :=
  cs.foldr (fun c bytes => c.utf8Size + bytes) 0

@[simp] theorem byteLength_nil : byteLength [] = 0 := by
  rfl

@[simp] theorem byteLength_cons (c : Char) (cs : List Char) :
    byteLength (c :: cs) = c.utf8Size + byteLength cs := by
  rfl

@[simp] theorem byteLength_append (cs ds : List Char) :
    byteLength (cs ++ ds) = byteLength cs + byteLength ds := by
  induction cs with
  | nil =>
      simp
  | cons c cs ih =>
      simp [ih, Nat.add_assoc]

theorem byteLength_eq_zero_iff {cs : List Char} :
    byteLength cs = 0 ↔ cs = [] := by
  cases cs with
  | nil =>
      simp
  | cons c cs =>
      have hpos := c.utf8Size_pos
      simp
      omega

/-- A string has the bytes of its characters. -/
theorem utf8ByteSize_ofList (cs : List Char) :
    (String.ofList cs).utf8ByteSize = byteLength cs := by
  induction cs with
  | nil =>
      rfl
  | cons c cs ih =>
      rw [String.ofList_cons, String.utf8ByteSize_append, ih]
      simp

/-- Of two cuts of a text, the one that is not earlier is made behind the other. -/
theorem exists_append_of_byteLength_le
    {a b c d : List Char}
    (heq : a ++ b = c ++ d) (hle : byteLength a ≤ byteLength c) :
    ∃ m, c = a ++ m ∧ b = m ++ d := by
  rcases List.append_eq_append_iff.1 heq with ⟨m, hc, hb⟩ | ⟨m, ha, hd⟩
  · exact ⟨m, hc, hb⟩
  · have hlength := congrArg byteLength ha
    rw [byteLength_append] at hlength
    have hnil : m = [] := byteLength_eq_zero_iff.1 (by omega)
    subst hnil
    exact ⟨[], by simpa using ha.symm, by simpa using hd.symm⟩

/--
The first `n` bytes of a text and what follows them, unless `n` is inside a character or
beyond the end.
-/
def splitAt? : Nat → List Char → Option (List Char × List Char)
  | 0, cs => some ([], cs)
  | _ + 1, [] => none
  | n + 1, c :: cs =>
      if c.utf8Size ≤ n + 1 then
        (splitAt? (n + 1 - c.utf8Size) cs).map fun (front, rest) => (c :: front, rest)
      else
        none

/-- The text between two byte offsets, empty unless both are character boundaries. -/
def slice (cs : List Char) (start stop : Nat) : List Char :=
  match splitAt? start cs with
  | none => []
  | some (_, rest) =>
      match splitAt? (stop - start) rest with
      | none => []
      | some (middle, _) => middle

/-- Every concatenation is cut at the seam. -/
theorem splitAt?_append (cs ds : List Char) :
    splitAt? (byteLength cs) (cs ++ ds) = some (cs, ds) := by
  induction cs with
  | nil =>
      cases ds <;> rfl
  | cons c cs ih =>
      have hpos := c.utf8Size_pos
      obtain ⟨n, hn⟩ : ∃ n, c.utf8Size + byteLength cs = n + 1 :=
        ⟨c.utf8Size + byteLength cs - 1, by omega⟩
      simp only [byteLength_cons, List.cons_append, hn, splitAt?]
      have hrest : n + 1 - c.utf8Size = byteLength cs := by omega
      simp [hrest, ih, show c.utf8Size ≤ n + 1 by omega]

/-- The text between two seams of a concatenation. -/
theorem slice_append (before text after : List Char) :
    slice (before ++ (text ++ after)) (byteLength before) (byteLength before + byteLength text) =
      text := by
  simp [slice, splitAt?_append]

end Bytes

end FieldQuery.Text
