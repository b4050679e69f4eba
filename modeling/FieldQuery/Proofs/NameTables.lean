import FieldQuery.NameTable

/-!
# What tables keyed by name hold

A table is known by what it gives for each name.  Inserting changes this for one name,
and keeping for a name that had no entry.  The order of the entries is that of the
bytes of their names in UTF-8.

**Results.**

* `lt_iff_bytes_lt`, `le_iff_bytes_le`: the order of texts is the order of their bytes;
* `find?_eq_some_iff`, `eq_of_find?`: what is found is what is there, and decides the table;
* `find?_insert`, `find?_keep`: what adding an entry changes;
* `find?_foldl_insert`, `find?_foldl_keep`: what adding several entries changes;
* `entries_ofList`: entries that are in order already stay as they are.
-/

namespace FieldQuery

section ByteOrder

namespace Text

/-- The bytes of a text in UTF-8. -/
def bytes (s : String) : List UInt8 :=
  s.toUTF8.data.toList

theorem bytes_eq_flatMap
    (s : String) :
    bytes s = s.toList.flatMap String.utf8EncodeChar := by
  have hencode : s.toUTF8 = s.toList.utf8Encode := by
    simp
  rw [bytes, hencode, List.utf8Encode]
  simp

theorem encodeChar_ne_nil
    (c : Char) :
    String.utf8EncodeChar c ≠ [] := by
  rw [Ne, ← List.length_eq_zero_iff, String.length_utf8EncodeChar]
  exact Nat.ne_of_gt c.utf8Size_pos

/-- The bytes of a character come before those of a later one, whatever follows either. -/
theorem encodeChar_append_lt
    {c d : Char} (hlt : c < d) (as bs : List UInt8) :
    String.utf8EncodeChar c ++ as < String.utf8EncodeChar d ++ bs := by
  have hvalues : c.val.toNat < d.val.toNat := hlt
  have hbound : d.val.toNat < 0x110000 := by
    have hvalid : d.val.toNat < 0xD800 ∨ 0xDFFF < d.val.toNat ∧ d.val.toNat < 0x110000 :=
      d.valid
    omega
  simp only [String.utf8EncodeChar]
  generalize c.val.toNat = m at *
  generalize d.val.toNat = n at *
  -- a longer form has a greater first byte; in forms of one length the digits decide
  repeat' split
  all_goals
    simp only [List.cons_append, List.nil_append, List.cons_lt_cons_iff,
      UInt8.lt_iff_toNat_lt, ← UInt8.toNat_inj, UInt8.toNat_ofNat']
    simp (disch := omega) only [Nat.mod_eq_of_lt]
    omega

theorem flatMap_encodeChar_lt
    {cs ds : List Char} (hlt : cs < ds) :
    cs.flatMap String.utf8EncodeChar < ds.flatMap String.utf8EncodeChar := by
  induction hlt with
  | @nil d ds =>
      rw [List.flatMap_nil, List.flatMap_cons]
      cases hd : String.utf8EncodeChar d with
      | nil =>
          exact absurd hd (encodeChar_ne_nil d)
      | cons b bs =>
          exact List.nil_lt_cons b _
  | rel hcd =>
      exact encodeChar_append_lt hcd _ _
  | cons _ ih =>
      rw [List.flatMap_cons, List.flatMap_cons]
      exact List.append_left_lt ih

/-- Texts are in the order of their bytes. -/
theorem lt_iff_bytes_lt
    {s t : String} :
    s < t ↔ bytes s < bytes t := by
  rw [bytes_eq_flatMap, bytes_eq_flatMap, String.lt_iff]
  refine ⟨flatMap_encodeChar_lt, fun hbytes => ?_⟩
  rcases Std.lt_trichotomy s.toList t.toList with hlt | heq | hgt
  · exact hlt
  · rw [heq] at hbytes
    exact absurd hbytes (List.lt_irrefl _)
  · exact absurd (flatMap_encodeChar_lt hgt) (List.lt_asymm hbytes)

theorem le_iff_bytes_le
    {s t : String} :
    s ≤ t ↔ bytes s ≤ bytes t := by
  rw [← String.not_lt, ← List.not_lt, lt_iff_bytes_lt]

end Text

end ByteOrder

namespace NameTable

variable {α : Type}

section Entries

variable {name other : String} {value : α} {entries : List (String × α)}

@[simp] theorem findEntry?_nil
    (name : String) :
    findEntry? name ([] : List (String × α)) = none := by
  rfl

theorem findEntry?_cons
    (name : String) (entry : String × α) (entries : List (String × α)) :
    findEntry? name (entry :: entries) =
      if entry.1 = name then some entry.2 else findEntry? name entries := by
  rfl

theorem findEntry?_insertEntry
    (name other : String) (value : α) (entries : List (String × α)) :
    findEntry? other (insertEntry name value entries) =
      if name = other then some value else findEntry? other entries := by
  induction entries with
  | nil =>
      rfl
  | cons entry entries ih =>
      simp only [insertEntry]
      split
      · rfl
      split
      · rename_i heq
        by_cases hother : name = other <;> simp [findEntry?_cons, ← heq, hother]
      · rename_i hne
        by_cases hentry : entry.1 = other
        · have hother : name ≠ other := fun h => hne (h.trans hentry.symm)
          simp [findEntry?_cons, hentry, hother]
        · simp [findEntry?_cons, hentry, ih]

theorem mem_of_findEntry?_eq_some
    (hfind : findEntry? name entries = some value) :
    (name, value) ∈ entries := by
  induction entries with
  | nil =>
      simp at hfind
  | cons entry entries ih =>
      simp only [findEntry?_cons] at hfind
      split at hfind
      · rename_i hname
        obtain rfl := hname
        obtain rfl := Option.some.inj hfind
        simp
      · exact List.mem_cons_of_mem _ (ih hfind)

theorem findEntry?_of_mem
    (hsorted : entries.Pairwise fun a b => a.1 < b.1) (hmem : (name, value) ∈ entries) :
    findEntry? name entries = some value := by
  induction entries with
  | nil =>
      simp at hmem
  | cons entry entries ih =>
      obtain ⟨hfirst, hrest⟩ := List.pairwise_cons.1 hsorted
      rcases List.mem_cons.1 hmem with rfl | hmem
      · simp [findEntry?_cons]
      · have hlt : entry.1 < name := hfirst _ hmem
        rw [findEntry?_cons, if_neg (Std.ne_of_lt hlt)]
        exact ih hrest hmem

/-- What is found is changed where every value is. -/
theorem findEntry?_map
    {β : Type} (change : α → β) (name : String) (entries : List (String × α)) :
    findEntry? name (entries.map fun entry => (entry.1, change entry.2)) =
      ( findEntry? name entries).map change := by
  induction entries with
  | nil =>
      rfl
  | cons entry entries ih =>
      rw [List.map_cons, findEntry?_cons, findEntry?_cons, ih]
      split <;> rfl

/-- An entry behind all others is put at the end. -/
theorem insertEntry_of_forall_lt
    (hlast : ∀ entry ∈ entries, entry.1 < name) :
    insertEntry name value entries = entries ++ [(name, value)] := by
  induction entries with
  | nil =>
      rfl
  | cons entry entries ih =>
      have hentry : entry.1 < name := hlast entry (by simp)
      rw [insertEntry, if_neg (String.lt_asymm hentry), if_neg (Std.ne_of_lt hentry).symm,
        ih fun entry hmem => hlast entry (by simp [hmem]), List.cons_append]

end Entries

section Lookup

variable {t u : NameTable α} {name : String} {value : α}

/-- Names do not repeat. -/
theorem nodup_names
    (t : NameTable α) :
    t.names.Nodup :=
  List.pairwise_map.2 (t.sorted.imp Std.ne_of_lt)

theorem nodup_entries
    (t : NameTable α) :
    t.entries.Nodup :=
  t.sorted.imp fun hlt heq => Std.ne_of_lt hlt (congrArg Prod.fst heq)

/-- What is found under a name is the entry of that name. -/
theorem find?_eq_some_iff :
    t.find? name = some value ↔ (name, value) ∈ t.entries :=
  ⟨mem_of_findEntry?_eq_some, findEntry?_of_mem t.sorted⟩

theorem find?_eq_none_iff :
    t.find? name = none ↔ ∀ value, (name, value) ∉ t.entries := by
  simp only [Option.eq_none_iff_forall_ne_some, Ne, find?_eq_some_iff]

theorem mem_names_iff :
    name ∈ t.names ↔ (t.find? name).isSome := by
  rw [Option.isSome_iff_exists]
  simp [names, find?_eq_some_iff]

/-- Tables in which the same is found under every name are equal. -/
theorem eq_of_find?
    (hfind : ∀ name, t.find? name = u.find? name) :
    t = u := by
  have hmem : ∀ entry, entry ∈ t.entries ↔ entry ∈ u.entries := by
    intro entry
    rw [← find?_eq_some_iff, ← find?_eq_some_iff, hfind]
  have hperm : t.entries.Perm u.entries :=
    (List.perm_ext_iff_of_nodup (nodup_entries t) (nodup_entries u)).2 hmem
  have hentries : t.entries = u.entries :=
    hperm.eq_of_pairwise (fun a b _ _ hab hba => absurd hba (String.lt_asymm hab)) t.sorted
      u.sorted
  obtain ⟨entries, hsorted⟩ := t
  obtain rfl : entries = u.entries := hentries
  rfl

@[simp] theorem find?_insert
    (t : NameTable α) (name : String) (value : α) (other : String) :
    (t.insert name value).find? other =
      if name = other then some value else t.find? other :=
  findEntry?_insertEntry name other value t.entries

/-- Keeping an entry changes nothing but what is found under a name without one. -/
@[simp] theorem find?_keep
    (t : NameTable α) (name : String) (value : α) (other : String) :
    (t.keep name value).find? other =
      (t.find? other).or (if name = other then some value else none) := by
  unfold keep
  cases hfind : t.find? name with
  | none =>
      rw [find?_insert]
      split
      · rename_i heq
        rw [← heq, hfind]
        rfl
      · rw [Option.or_none]
  | some earlier =>
      simp only []
      split
      · rename_i heq
        rw [← heq, hfind]
        rfl
      · rw [Option.or_none]

/-- Of the entries that are kept one after the other, the first of a name is found. -/
theorem find?_foldl_keep
    (entries : List (String × α)) (t : NameTable α) (name : String) :
    (entries.foldl (fun t entry => t.keep entry.1 entry.2) t).find? name =
      (t.find? name).or ( findEntry? name entries) := by
  induction entries generalizing t with
  | nil =>
      simp
  | cons entry entries ih =>
      rw [List.foldl_cons, ih, find?_keep, Option.or_assoc, findEntry?_cons]
      split <;> rfl

/-- Of the entries that are inserted one after the other, the last of a name is found. -/
theorem find?_foldl_insert
    (entries : List (String × α)) (t : NameTable α) (name : String) :
    (entries.foldl (fun t entry => t.insert entry.1 entry.2) t).find? name =
      (entries.reverse.lookup name).or (t.find? name) := by
  induction entries generalizing t with
  | nil =>
      rfl
  | cons entry entries ih =>
      rw [List.foldl_cons, ih, find?_insert, List.reverse_cons, List.lookup_append,
        Option.or_assoc, List.lookup_cons]
      by_cases hname : entry.1 = name
      · simp [hname]
      · have hother : (name == entry.1) = false := beq_false_of_ne (Ne.symm hname)
        simp [hname, hother]

/-- In the table of a list of entries, the last one of a name is found. -/
theorem find?_ofList
    (entries : List (String × α)) (name : String) :
    (ofList entries).find? name = entries.reverse.lookup name := by
  have hempty : (empty : NameTable α).find? name = none := rfl
  rw [ofList, find?_foldl_insert, hempty, Option.or_none]

end Lookup

section Building

/-- Entries that come after those of a table, and in order, are added as they are. -/
theorem entries_foldl_insert
    (entries : List (String × α)) (t : NameTable α)
    (hsorted : (t.entries ++ entries).Pairwise fun a b => a.1 < b.1) :
    (entries.foldl (fun t entry => t.insert entry.1 entry.2) t).entries =
      t.entries ++ entries := by
  induction entries generalizing t with
  | nil =>
      simp
  | cons entry entries ih =>
      have hlast : ∀ earlier ∈ t.entries, earlier.1 < entry.1 := fun earlier hmem =>
        (List.pairwise_append.1 hsorted).2.2 earlier hmem entry (by simp)
      have hinsert : (t.insert entry.1 entry.2).entries = t.entries ++ [entry] :=
        insertEntry_of_forall_lt hlast
      rw [List.foldl_cons, ih _ (by simpa [hinsert] using hsorted), hinsert]
      simp

/-- Entries that are in order are the entries of their table. -/
theorem entries_ofList
    {entries : List (String × α)}
    (hsorted : entries.Pairwise fun a b => a.1 < b.1) :
    (ofList entries).entries = entries :=
  entries_foldl_insert entries empty hsorted

/-- A table is the table of its entries. -/
theorem ofList_entries
    (t : NameTable α) :
    ofList t.entries = t := by
  have hentries := entries_ofList t.sorted
  generalize ofList t.entries = u at *
  obtain ⟨entries, hsorted⟩ := u
  obtain rfl : entries = t.entries := hentries
  rfl

end Building

end NameTable

end FieldQuery
