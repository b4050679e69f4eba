import FieldQuery.Predicate.Display
import FieldQuery.Predicate.RangeMerge
import FieldQuery.Proofs.CompiledForm
import FieldQuery.Proofs.JsonTexts

/-!
# The interchange form of a predicate loses nothing

The type of an object tells the case of the predicate, and its other members are all that
the case holds.  An end of a range that is left out leaves no member, and values are
written without a mark of their type; they are told apart by their own texts.  So no two
predicates whose numbers are finite have one text.

**Results.**

* `Value.toJson_injective`, `Atom.toJson_injective`, `Predicate.toJson_injective`: no two of
  them have one form;
* `Predicate.exact_toJson`: what makes the form of a predicate exact;
* `Predicate.eq_of_compact_eq`: no two predicates have one text.
-/

namespace FieldQuery

/-- The value of a member determines it among values. -/
theorem Value.toJson_injective
    {v w : Value} (hform : v.toJson = w.toJson) :
    v = w := by
  cases v with
  | integer m =>
      cases w with
      | integer n => rw [Json.integer.inj hform]
      | float y => cases hform
      | string t => cases hform
  | float x =>
      cases w with
      | integer n => cases hform
      | float y => rw [Json.float.inj hform]
      | string t => cases hform
  | string s =>
      cases w with
      | integer n => cases hform
      | float y => cases hform
      | string t => rw [Json.string.inj hform]

theorem PatternKind.name_injective
    {k l : PatternKind} (hname : k.name = l.name) :
    k = l := by
  cases k <;> cases l <;> first | rfl | exact absurd hname (by decide)

theorem SearchMode.name_injective
    {m n : SearchMode} (hname : m.name = n.name) :
    m = n := by
  cases m <;> cases n <;> first | rfl | exact absurd hname (by decide)

namespace Bound

theorem toJson_injective
    {a b : Bound} (hform : a.toJson = b.toJson) :
    a = b := by
  simp only [toJson, Json.object.injEq, List.cons.injEq, Prod.mk.injEq, Json.bool.injEq,
    true_and, and_true] at hform
  obtain ⟨hvalue, hinclusive⟩ := hform
  cases a
  cases b
  rw [Bound.mk.injEq]
  exact ⟨Value.toJson_injective hvalue, hinclusive⟩

theorem members_injective
    {name : String} {a b : Option Bound} (hmembers : members name a = members name b) :
    a = b := by
  cases a with
  | none =>
      cases b with
      | none => rfl
      | some b => cases hmembers
  | some a =>
      cases b with
      | none => cases hmembers
      | some b =>
          simp only [members, List.cons.injEq, Prod.mk.injEq, true_and, and_true] at hmembers
          rw [toJson_injective hmembers]

/-- An end of a range has its own name. -/
theorem members_ne_cons
    {name other : String} (hne : name ≠ other) (a : Option Bound) (j : Json)
    (more : List (String × Json)) :
    members other a ≠ (name, j) :: more := by
  cases a with
  | none =>
      exact (List.cons_ne_nil _ _).symm
  | some a =>
      intro hmembers
      exact hne (Prod.mk.inj (List.cons.inj hmembers).1).1.symm

/-- The ends of a range are told apart by the names of their members. -/
theorem members_append_inj
    {lower lower' upper upper' : Option Bound} {name other : String} (hne : name ≠ other)
    (hmembers : members name lower ++ members other upper =
      members name lower' ++ members other upper') :
    lower = lower' ∧ upper = upper' := by
  cases lower with
  | none =>
      cases lower' with
      | none =>
          exact ⟨rfl, members_injective hmembers⟩
      | some b =>
          exact absurd hmembers (members_ne_cons hne upper _ _)
  | some a =>
      cases lower' with
      | none =>
          exact absurd hmembers.symm (members_ne_cons hne upper' _ _)
      | some b =>
          simp only [members, List.cons_append, List.nil_append, List.cons.injEq, Prod.mk.injEq,
            true_and] at hmembers
          obtain ⟨hform, hupper⟩ := hmembers
          exact ⟨congrArg some (toJson_injective hform), members_injective hupper⟩

end Bound

namespace Atom

/-- The type that the form of an atom names. -/
def typeName : Atom → String
  | equals _ _ => "eq"
  | range _ _ _ => "range"
  | present _ => "exists"
  | pattern _ _ _ => "pattern"
  | freeText _ _ => "free_text"

/-- The members of the form of an atom behind its type. -/
def members : Atom → List (String × Json)
  | equals field value => [("field", .string field), ("value", value.toJson)]
  | range field lower upper =>
      ("field", .string field) :: Bound.members "lower" lower ++ Bound.members "upper" upper
  | present field => [("field", .string field)]
  | pattern field kind text =>
      [("field", .string field), ("kind", .string kind.name), ("text", .string text)]
  | freeText text mode => [("text", .string text), ("mode", .string mode.name)]

theorem toJson_eq
    (a : Atom) :
    a.toJson = .object (("type", .string a.typeName) :: a.members) := by
  cases a <;> rfl

/-- **No two atoms have one form.** -/
theorem toJson_injective
    {a b : Atom} (hform : a.toJson = b.toJson) :
    a = b := by
  rw [toJson_eq, toJson_eq] at hform
  simp only [Json.object.injEq, List.cons.injEq, Prod.mk.injEq, Json.string.injEq,
    true_and] at hform
  obtain ⟨htype, hmembers⟩ := hform
  cases a with
  | equals field value =>
      cases b with
      | equals field' value' =>
          simp only [members, List.cons.injEq, Prod.mk.injEq, Json.string.injEq, true_and,
            and_true] at hmembers
          rw [hmembers.1, Value.toJson_injective hmembers.2]
      | _ => simp [typeName] at htype
  | range field lower upper =>
      cases b with
      | range field' lower' upper' =>
          simp only [members, List.cons_append, List.cons.injEq, Prod.mk.injEq,
            Json.string.injEq, true_and] at hmembers
          obtain ⟨hlower, hupper⟩ := Bound.members_append_inj (by decide) hmembers.2
          rw [hmembers.1, hlower, hupper]
      | _ => simp [typeName] at htype
  | present field =>
      cases b with
      | present field' =>
          simp only [members, List.cons.injEq, Prod.mk.injEq, Json.string.injEq, true_and,
            and_true] at hmembers
          rw [hmembers]
      | _ => simp [typeName] at htype
  | pattern field kind text =>
      cases b with
      | pattern field' kind' text' =>
          simp only [members, List.cons.injEq, Prod.mk.injEq, Json.string.injEq, true_and,
            and_true] at hmembers
          obtain ⟨hfield, hkind, htext⟩ := hmembers
          rw [hfield, PatternKind.name_injective hkind, htext]
      | _ => simp [typeName] at htype
  | freeText text mode =>
      cases b with
      | freeText text' mode' =>
          simp only [members, List.cons.injEq, Prod.mk.injEq, Json.string.injEq, true_and,
            and_true] at hmembers
          rw [hmembers.1, SearchMode.name_injective hmembers.2]
      | _ => simp [typeName] at htype

/-- No atom has the type of a Boolean node. -/
theorem typeName_ne
    (a : Atom) :
    a.typeName ≠ "and" ∧ a.typeName ≠ "or" ∧ a.typeName ≠ "not" := by
  cases a <;> simp [typeName]

end Atom

namespace Predicate

/-- The type that the form of a predicate names. -/
def typeName : Predicate → String
  | atom a => a.typeName
  | and _ => "and"
  | or _ => "or"
  | not _ => "not"

/-- The members of the form of a predicate behind its type. -/
def members : Predicate → List (String × Json)
  | atom a => a.members
  | and children | or children => [("children", .array (toJsons children))]
  | not child => [("child", child.toJson)]

theorem toJson_eq
    (p : Predicate) :
    p.toJson = .object (("type", .string p.typeName) :: p.members) := by
  cases p with
  | atom a => rw [toJson, Atom.toJson_eq, typeName, members]
  | and children => rw [toJson, typeName, members]
  | or children => rw [toJson, typeName, members]
  | not child => rw [toJson, typeName, members]

mutual

/-- **No two predicates have one form.** -/
theorem toJson_injective
    {p q : Predicate} (hform : p.toJson = q.toJson) :
    p = q := by
  have hparts := hform
  rw [toJson_eq, toJson_eq] at hparts
  simp only [Json.object.injEq, List.cons.injEq, Prod.mk.injEq, Json.string.injEq,
    true_and] at hparts
  obtain ⟨htype, hmembers⟩ := hparts
  cases p with
  | atom a =>
      cases q with
      | atom b =>
          rw [toJson, toJson] at hform
          rw [Atom.toJson_injective hform]
      | and children' => exact absurd htype a.typeName_ne.1
      | or children' => exact absurd htype a.typeName_ne.2.1
      | not child' => exact absurd htype a.typeName_ne.2.2
  | and children =>
      cases q with
      | and children' =>
          simp only [members, List.cons.injEq, Prod.mk.injEq, Json.array.injEq, true_and,
            and_true] at hmembers
          rw [toJsons_injective hmembers]
      | atom b => exact absurd htype.symm b.typeName_ne.1
      | _ => simp [typeName] at htype
  | or children =>
      cases q with
      | or children' =>
          simp only [members, List.cons.injEq, Prod.mk.injEq, Json.array.injEq, true_and,
            and_true] at hmembers
          rw [toJsons_injective hmembers]
      | atom b => exact absurd htype.symm b.typeName_ne.2.1
      | _ => simp [typeName] at htype
  | not child =>
      cases q with
      | not child' =>
          simp only [members, List.cons.injEq, Prod.mk.injEq, true_and, and_true] at hmembers
          rw [toJson_injective hmembers]
      | atom b => exact absurd htype.symm b.typeName_ne.2.2
      | _ => simp [typeName] at htype

theorem toJsons_injective
    {ps qs : List Predicate} (hforms : toJsons ps = toJsons qs) :
    ps = qs := by
  cases ps with
  | nil =>
      cases qs with
      | nil => rfl
      | cons q qs => cases hforms
  | cons p ps =>
      cases qs with
      | nil => cases hforms
      | cons q qs =>
          simp only [toJsons, List.cons.injEq] at hforms
          rw [toJson_injective hforms.1, toJsons_injective hforms.2]

end

end Predicate

section Exactness

open Json (Exact)

theorem Value.exact_toJson
    {v : Value} (hv : ∀ x, v = .float x → x.isFinite = true) :
    Exact v.toJson := by
  cases v with
  | integer n => exact .integer n
  | float x => exact .float (hv x rfl)
  | string s => exact .string s

theorem Bound.exact_of_mem_members
    {bound : Option Bound} {name : String}
    (hbound : ∀ b ∈ bound, Exact b.value.toJson) :
    ∀ member ∈ members name bound, Exact member.2 := by
  cases bound with
  | none =>
      exact List.forall_mem_nil _
  | some b =>
      rw [members, List.forall_mem_singleton, toJson]
      refine .object ?_
      simp only [List.forall_mem_cons]
      exact ⟨hbound b rfl, .bool _, List.forall_mem_nil _⟩

/-- The form of an atom is exact if its values are finite. -/
theorem Atom.exact_toJson
    {a : Atom} (ha : ∀ x, .float x ∈ a.values → x.isFinite = true) :
    Exact a.toJson := by
  have hvalues : ∀ v ∈ a.values, Exact v.toJson := by
    intro v hv
    refine Value.exact_toJson fun x hx => ha x ?_
    rw [← hx]
    exact hv
  rw [toJson_eq]
  refine .object (List.forall_mem_cons.2 ⟨.string _, ?_⟩)
  cases a with
  | equals field value =>
      simp only [members, List.forall_mem_cons]
      exact ⟨.string _, hvalues value (by simp [values]), List.forall_mem_nil _⟩
  | range field lower upper =>
      simp only [members, List.cons_append, List.forall_mem_cons, List.forall_mem_append]
      refine ⟨.string _, Bound.exact_of_mem_members fun b hb => hvalues b.value ?_,
        Bound.exact_of_mem_members fun b hb => hvalues b.value ?_⟩
      · exact List.mem_map_of_mem (List.mem_append_left _ (Option.mem_toList.2 hb))
      · exact List.mem_map_of_mem (List.mem_append_right _ (Option.mem_toList.2 hb))
  | present field =>
      simp only [members, List.forall_mem_cons]
      exact ⟨.string _, List.forall_mem_nil _⟩
  | pattern field kind text =>
      simp only [members, List.forall_mem_cons]
      exact ⟨.string _, .string _, .string _, List.forall_mem_nil _⟩
  | freeText text mode =>
      simp only [members, List.forall_mem_cons]
      exact ⟨.string _, .string _, List.forall_mem_nil _⟩

namespace Predicate

mutual

/-- The form of a predicate is exact if those of its atoms are. -/
theorem exact_toJson
    {p : Predicate} (hp : ∀ a ∈ p.atoms, Exact a.toJson) :
    Exact p.toJson := by
  cases p with
  | atom a =>
      rw [toJson]
      exact hp a (by simp [atoms])
  | and children =>
      rw [atoms] at hp
      rw [toJson]
      refine .object ?_
      simp only [List.forall_mem_cons]
      exact ⟨.string _, .array (exact_toJsons hp), List.forall_mem_nil _⟩
  | or children =>
      rw [atoms] at hp
      rw [toJson]
      refine .object ?_
      simp only [List.forall_mem_cons]
      exact ⟨.string _, .array (exact_toJsons hp), List.forall_mem_nil _⟩
  | not child =>
      rw [atoms] at hp
      rw [toJson]
      refine .object ?_
      simp only [List.forall_mem_cons]
      exact ⟨.string _, exact_toJson hp, List.forall_mem_nil _⟩

theorem exact_toJsons
    {ps : List Predicate} (hps : ∀ a ∈ atomsOf ps, Exact a.toJson) :
    ∀ j ∈ toJsons ps, Exact j := by
  cases ps with
  | nil =>
      rw [toJsons]
      exact List.forall_mem_nil _
  | cons p ps =>
      rw [atomsOf, List.forall_mem_append] at hps
      rw [toJsons, List.forall_mem_cons]
      exact ⟨exact_toJson hps.1, exact_toJsons hps.2⟩

end

/-- All numbers that a predicate compares with are finite. -/
def Finite (p : Predicate) : Prop :=
  ∀ a ∈ p.atoms, ∀ x, .float x ∈ a.values → x.isFinite = true

/--
**The compact text of a predicate loses nothing**: no two predicates whose numbers are
finite have one.
-/
theorem eq_of_compact_eq
    {p q : Predicate} (hp : p.Finite) (hq : q.Finite)
    (htext : p.toJson.compact = q.toJson.compact) :
    p = q := by
  have hexact : ∀ r : Predicate, r.Finite → Exact r.toJson :=
    fun r hr => exact_toJson fun a ha => Atom.exact_toJson (hr a ha)
  exact toJson_injective ((hexact p hp).compact_injective (hexact q hq) htext)

/-- What two ends of a range are merged into has the text of the range itself. -/
theorem eq_of_compact_eq_merged :
    let lower : Bound := ⟨.integer 1, true⟩
    let upper : Bound := ⟨.float (.ofDecimal false 25 (-1)), false⟩
    let p := mergeRanges
      (.and [.atom (.range "price" (some lower) none), .atom (.range "price" none (some upper))])
    let q : Predicate := .atom (.range "price" (some lower) (some upper))
    p.Finite ∧ q.Finite ∧ p.toJson.compact = q.toJson.compact ∧ p = q := by
  intro lower upper p q
  have hq : q.Finite := by
    intro a ha x hx
    obtain rfl : a = .range "price" (some lower) (some upper) := by simpa [q, atoms] using ha
    have hvalue : x = .ofDecimal false 25 (-1) := by simpa [Atom.values, lower, upper] using hx
    rw [hvalue]
    decide +kernel
  have hp : p.Finite := hq
  have htext : p.toJson.compact = q.toJson.compact := by
    decide +kernel
  exact ⟨hp, hq, htext, eq_of_compact_eq hp hq htext⟩

/-- An integer, the number of its size and the text of its digits. -/
example :
    [Value.integer 1, .float (.ofDecimal false 1 0), .string "1"].map
      (fun value => value.toJson.compact) = ["1", "1.0", "\"1\""] := by
  decide +kernel

end Predicate

end Exactness

end FieldQuery
