import FieldQuery.Config.Basic
import FieldQuery.Proofs.NameTables

/-!
# The closest definition wins

Layers are merged in two ways.  Limits and options are overwritten, from the last layer
to the first; fields are kept, from the first layer to the last.  Both come to the same:
a key has the value of the first layer that defines it, and where no layer does, a limit
or an option has its default and a field is not there.

**Results.**

* `some_read_foldr_overwrite`: what is overwritten is what the first layer says;
* `find?_fieldsOf`: what is kept is what the first layer says;
* `value?_ofLayers`: every key of a merged configuration;
* `eq_of_value?`, `findSome?_insert`: what a further layer may change;
* `closest_definition_wins`: keys, fields and directory of a merged configuration.
-/

namespace FieldQuery

/-- A key of a configuration file that layers are merged by. -/
inductive Key where
  | maxDepth
  | maxTokens
  | unknownFields
  | mergeRanges
  /-- The paths of a field name. -/
  | field (name : String)

namespace Key

/-- What a key is given. -/
def Value : Key → Type
  | maxDepth | maxTokens => Nat
  | unknownFields => UnknownFields
  | mergeRanges => Bool
  | field _ => List String

/-- What a key is where no layer defines it. -/
def default? : (key : Key) → Option key.Value
  | maxDepth => some (64 : Nat)
  | maxTokens => some (4096 : Nat)
  | unknownFields => some .reject
  | mergeRanges => some true
  | field _ => none

end Key

/-- What a layer gives a key, if it defines the key. -/
def Layer.value? (layer : Layer) : (key : Key) → Option key.Value
  | .maxDepth => layer.maxDepth?
  | .maxTokens => layer.maxTokens?
  | .unknownFields => layer.unknownFields?
  | .mergeRanges => layer.mergeRanges?
  | .field name => layer.fields.bind fun fields => fields.find? name

/-- What a key is in a configuration, which has every limit and option. -/
def Config.value? (c : Config) : (key : Key) → Option key.Value
  | .maxDepth => some c.limits.maxDepth
  | .maxTokens => some c.limits.maxTokens
  | .unknownFields => some c.options.unknownFields
  | .mergeRanges => some c.options.mergeRanges
  | .field name => c.fields.find? name

section Merging

namespace Config

theorem overwriteLimits_eq
    (layer : Layer) (limits : Limits) :
    overwriteLimits layer limits =
      ⟨layer.maxDepth?.getD limits.maxDepth, layer.maxTokens?.getD limits.maxTokens⟩ := by
  unfold overwriteLimits Layer.maxDepth? Layer.maxTokens?
  cases layer.limits <;> rfl

theorem overwriteOptions_eq
    (layer : Layer) (options : CompileOptions) :
    overwriteOptions layer options =
      ⟨layer.unknownFields?.getD options.unknownFields,
        layer.mergeRanges?.getD options.mergeRanges⟩ := by
  unfold overwriteOptions Layer.unknownFields? Layer.mergeRanges?
  cases layer.options <;> rfl

/-- What layers overwrite, the last one first, is what the first that defines it says. -/
theorem some_read_foldr_overwrite
    {σ α : Type} {overwrite : Layer → σ → σ} {key : Layer → Option α} (read : σ → α)
    (hoverwrite : ∀ layer s, read (overwrite layer s) = (key layer).getD (read s))
    (layers : List Layer) (defaults : σ) :
    some (read (layers.foldr overwrite defaults)) =
      (layers.findSome? key).or (some (read defaults)) := by
  induction layers with
  | nil =>
      rfl
  | cons layer layers ih =>
      rw [List.foldr_cons, hoverwrite, List.findSome?_cons]
      cases key layer with
      | some value =>
          rfl
      | none =>
          exact ih

theorem find?_keepFields
    (fields : NameTable (List String)) (layer : Layer) (name : String) :
    (keepFields fields layer).find? name =
      (fields.find? name).or ( NameTable.findEntry? name layer.fieldEntries) :=
  NameTable.find?_foldl_keep layer.fieldEntries fields name

/-- The paths of a merged field are those of the first layer that has the field. -/
theorem find?_fieldsOf
    (layers : List Layer) (name : String) :
    (fieldsOf layers).find? name =
      layers.findSome? fun layer => NameTable.findEntry? name layer.fieldEntries := by
  have hfold : ∀ fields : NameTable (List String),
      (layers.foldl keepFields fields).find? name =
        (fields.find? name).or
          (layers.findSome? fun layer => NameTable.findEntry? name layer.fieldEntries) := by
    induction layers with
    | nil =>
        simp
    | cons layer layers ih =>
        intro fields
        rw [List.foldl_cons, ih, find?_keepFields, List.findSome?_cons, Option.or_assoc]
        cases NameTable.findEntry? name layer.fieldEntries <;> rfl
  exact hfold .empty

end Config

theorem Layer.findEntry?_fieldEntries
    (layer : Layer) (name : String) :
    NameTable.findEntry? name layer.fieldEntries = layer.value? (.field name) := by
  unfold fieldEntries value?
  cases layer.fields <;> rfl

namespace Config

/-- A key has the value of the first layer that defines it, or else its default. -/
theorem value?_ofLayers
    (layers : List (String × Layer)) (key : Key) :
    (ofLayers layers).value? key =
      (layers.findSome? fun entry => entry.2.value? key).or key.default? := by
  have hlayers :
      (layers.findSome? fun entry => entry.2.value? key) =
        (layers.map Prod.snd).findSome? (Layer.value? · key) := by
    rw [List.findSome?_map]
    rfl
  rw [hlayers]
  cases key with
  | maxDepth =>
      exact some_read_foldr_overwrite Limits.maxDepth
        (fun layer limits => congrArg Limits.maxDepth (overwriteLimits_eq layer limits)) _ _
  | maxTokens =>
      exact some_read_foldr_overwrite Limits.maxTokens
        (fun layer limits => congrArg Limits.maxTokens (overwriteLimits_eq layer limits)) _ _
  | unknownFields =>
      exact some_read_foldr_overwrite CompileOptions.unknownFields
        (fun layer options =>
          congrArg CompileOptions.unknownFields (overwriteOptions_eq layer options)) _ _
  | mergeRanges =>
      exact some_read_foldr_overwrite CompileOptions.mergeRanges
        (fun layer options =>
          congrArg CompileOptions.mergeRanges (overwriteOptions_eq layer options)) _ _
  | field name =>
      simp only [← Layer.findEntry?_fieldEntries]
      exact (find?_fieldsOf _ name).trans Option.or_none.symm

/-- What holds of every value that a layer gives a key, and of its default, holds in effect. -/
theorem of_value?_ofLayers
    {layers : List (String × Layer)} (key : Key) {p : key.Value → Prop}
    (hlayers : ∀ entry ∈ layers, ∀ value, entry.2.value? key = some value → p value)
    (hdefault : ∀ value, key.default? = some value → p value)
    {value : key.Value} (hvalue : (ofLayers layers).value? key = some value) :
    p value := by
  rw [value?_ofLayers, Option.or_eq_some_iff] at hvalue
  rcases hvalue with hfound | ⟨_, hvalue⟩
  · obtain ⟨entry, hmem, hentry⟩ := List.exists_of_findSome?_eq_some hfound
    exact hlayers entry hmem value hentry
  · exact hdefault value hvalue

end Config

end Merging

section Insertion

/-- An element whose value comes behind another one is not what is found first. -/
theorem findSome?_insert
    {α β : Type} {key : α → Option β} {before : List α} {a : α} (after : List α)
    (hcovered : (key a).isSome → ∃ earlier ∈ before, (key earlier).isSome) :
    (before ++ a :: after).findSome? key = (before ++ after).findSome? key := by
  rw [List.findSome?_append, List.findSome?_append, List.findSome?_cons]
  cases hbefore : before.findSome? key with
  | some value =>
      rfl
  | none =>
      have hnone : key a = none := by
        rw [← Option.not_isSome_iff_eq_none]
        intro hsome
        obtain ⟨earlier, hmem, hearlier⟩ := hcovered hsome
        rw [List.findSome?_eq_none_iff.1 hbefore earlier hmem] at hearlier
        cases hearlier
      rw [hnone]

namespace Config

/-- A configuration is what its keys are, and its directory. -/
theorem eq_of_value?
    {c d : Config} (hvalue : ∀ key, c.value? key = d.value? key)
    (hdirectory : c.directory = d.directory) :
    c = d := by
  obtain ⟨⟨depth, tokens⟩, ⟨policy, merge⟩, fields, directory⟩ := c
  obtain ⟨⟨depth', tokens'⟩, ⟨policy', merge'⟩, fields', directory'⟩ := d
  obtain rfl : depth = depth' := Option.some.inj (hvalue .maxDepth)
  obtain rfl : tokens = tokens' := Option.some.inj (hvalue .maxTokens)
  obtain rfl : policy = policy' := Option.some.inj (hvalue .unknownFields)
  obtain rfl : merge = merge' := Option.some.inj (hvalue .mergeRanges)
  obtain rfl : fields = fields' := NameTable.eq_of_find? fun name => hvalue (.field name)
  obtain rfl : directory = directory' := hdirectory
  rfl

/-- A layer that only defines what closer ones define is no part of the result. -/
theorem ofLayers_insert
    {before : List (String × Layer)} (hbefore : before ≠ [])
    {inserted : String × Layer} (after : List (String × Layer))
    (hcovered : ∀ key, (inserted.2.value? key).isSome →
      ∃ entry ∈ before, (entry.2.value? key).isSome) :
    ofLayers (before ++ inserted :: after) = ofLayers (before ++ after) := by
  refine eq_of_value? (fun key => ?_) ?_
  · rw [value?_ofLayers, value?_ofLayers, findSome?_insert after (hcovered key)]
  · obtain ⟨first, rest, rfl⟩ := List.exists_cons_of_ne_nil hbefore
    rfl

/--
**The closest definition wins.**  In a configuration made of layers, the closest first,
every key has the value of the first layer that defines it, whole and as it is; where no
layer does, a limit or an option has its default.  The fields are those of all layers
together, and the directory is that of the first layer.  A layer that is put behind the
first one changes nothing if layers in front of it define all that it defines, and so
nothing at all if it defines nothing.
-/
theorem closest_definition_wins
    (layers : List (String × Layer)) :
    (∀ key, (ofLayers layers).value? key =
      (layers.findSome? fun entry => entry.2.value? key).or key.default?)
      ∧
    (∀ name, name ∈ (ofLayers layers).fields.names ↔
      ∃ entry ∈ layers, (entry.2.value? (.field name)).isSome)
      ∧
    (ofLayers layers).directory = layers.head?.bind (fun entry => Path.parent? entry.1)
      ∧
    (∀ before after inserted, layers = before ++ after → before ≠ [] →
      (∀ key, (inserted.2.value? key).isSome →
        ∃ entry ∈ before, (entry.2.value? key).isSome) →
      ofLayers (before ++ inserted :: after) = ofLayers layers) := by
  refine ⟨value?_ofLayers layers, fun name => ?_, rfl, ?_⟩
  · have hfield :
        name ∈ (ofLayers layers).fields.names ↔
          ((ofLayers layers).value? (.field name)).isSome :=
      NameTable.mem_names_iff
    rw [hfield, value?_ofLayers, Key.default?, Option.or_none, List.findSome?_isSome_iff]
  · rintro before after inserted rfl hbefore hcovered
    exact ofLayers_insert hbefore after hcovered

/-- A field without paths hides those of two files further up, one of which is of no use. -/
theorem closest_definition_wins_without_paths :
    ∃ closest middle last : String × Layer,
      closest.2.value? (.field "state") = some [] ∧
      middle.2.value? (.field "state") = some ["s"] ∧
      closest.2.limits = some {} ∧
      ofLayers [closest, middle, last] = ofLayers [closest, last] ∧
      (ofLayers [closest, middle, last]).limits = ⟨8, 4096⟩ ∧
      (ofLayers [closest, middle, last]).fields.entries = [("name", ["n"]), ("state", [])] ∧
      (ofLayers [closest, middle, last]).directory = some "/p/w" := by
  let closest : String × Layer :=
    ("/p/w/.sift.toml", { limits := some {}, fields := some (.ofList [("state", [])]) })
  let middle : String × Layer :=
    ("/p/.sift.toml", { fields := some (.ofList [("state", ["s"])]) })
  let last : String × Layer :=
    ("/.sift.toml",
      { limits := some { maxDepth := some 8 }
        fields := some (.ofList [("state", ["t"]), ("name", ["n"])]) })
  have hcovered : ∀ key, (middle.2.value? key).isSome →
      ∃ entry ∈ [closest], (entry.2.value? key).isSome := by
    intro key hsome
    cases key with
    | field name =>
        by_cases hname : "state" = name
        · subst hname
          exact ⟨closest, by simp, rfl⟩
        · have hnone : middle.2.value? (.field name) = none := if_neg hname
          rw [hnone] at hsome
          cases hsome
    | _ =>
        cases hsome
  have hinsert : ofLayers [closest, middle, last] = ofLayers [closest, last] :=
    (closest_definition_wins [closest, last]).2.2.2 [closest] [last] middle rfl (by simp) hcovered
  exact ⟨closest, middle, last, rfl, rfl, rfl, hinsert, rfl, by decide, by decide⟩

end Config

end Insertion

end FieldQuery
