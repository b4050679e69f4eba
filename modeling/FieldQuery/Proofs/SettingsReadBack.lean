import FieldQuery.Proofs.LoadedSettings
import FieldQuery.Proofs.WrittenDocuments

/-!
# Written settings

The settings of a configuration are written with every limit, every option and every
field, while a layer may leave each of them out.  Reading what was written gives a layer
that leaves nothing out, so merging this one layer gives the same settings again.

**Results.**

* `Config.document_writeSettings`: the settings are a document of three tables;
* `Config.ofEntries?_map_headed`: what these tables set is what the configuration has;
* `Config.read?_settings`: the settings are read back as one full layer;
* `Config.fieldsOf_singleton`: a layer on its own is merged to its own fields;
* `settings_read_back`: the settings of a configuration made of texts load back unchanged.
-/

namespace FieldQuery

section Tables

namespace Config

/-- The tables of the settings. -/
def tables (c : Config) : List (String × Toml.Entries) :=
  [("limits",
      [("max_depth", .integer c.limits.maxDepth), ("max_tokens", .integer c.limits.maxTokens)]),
    ("compile",
      [("unknown_fields", .string c.options.unknownFields.name),
        ("merge_ranges", .boolean c.options.mergeRanges)]),
    ("fields", c.fields.entries.map fun entry => (entry.1, .array (entry.2.map .string)))]

/-- Both limits of a configuration can be read as counts. -/
structure HasCounts (c : Config) : Prop where
  depth : c.limits.maxDepth < Nat.pow 2 64
  tokens : c.limits.maxTokens < Nat.pow 2 64

theorem entryLines_fields
    (entries : List (String × List String)) :
    Toml.EntryLines
      (entries.flatMap fun (name, paths) => Toml.writeEntry name (Toml.writeTexts paths))
      (entries.map fun entry => (entry.1, .array (entry.2.map .string))) := by
  induction entries with
  | nil =>
      exact .nil
  | cons entry entries ih =>
      exact .cons entry.1 (Toml.valueText_writeTexts entry.2) ih

/-- The settings are a document of their tables. -/
theorem document_writeSettings
    {c : Config} (hcounts : c.HasCounts) :
    Toml.Document c.writeSettings c.tables := by
  have hlimits :=
    Toml.EntryLines.cons "max_depth" (Toml.valueText_natDigits hcounts.depth)
      (.cons "max_tokens" (Toml.valueText_natDigits hcounts.tokens) .nil)
  have hcompile :=
    Toml.EntryLines.cons "unknown_fields" (Toml.valueText_writeText c.options.unknownFields.name)
      (.cons "merge_ranges" (Toml.valueText_boolean c.options.mergeRanges) .nil)
  have hdocument : Toml.Document _ c.tables :=
    .more hlimits (.more hcompile (.last (entryLines_fields c.fields.entries)))
  simpa [writeSettings] using hdocument

/-- The settings are read as their tables. -/
theorem toml_read?_settings
    {c : Config} (hcounts : c.HasCounts) :
    Toml.read? c.settings = some (c.tables.map Toml.headed) := by
  have hnames : (c.tables.map Prod.fst).Nodup := by
    simp [tables]
  have hkeys : ∀ table ∈ c.tables, (table.2.map Prod.fst).Nodup := by
    have hfields : (c.fields.entries.map Prod.fst).Nodup := c.fields.nodup_names
    simpa [tables, Function.comp_def] using hfields
  exact (document_writeSettings hcounts).read? hnames hkeys

end Config

end Tables

section Reading

namespace Toml

theorem areReadable_map_string
    (ss : List String) :
    areReadable (ss.map string) = true := by
  induction ss with
  | nil =>
      rfl
  | cons s ss ih =>
      exact ih

theorem entriesReadable_fields
    (entries : List (String × List String)) :
    entriesReadable (entries.map fun entry => (entry.1, .array (entry.2.map .string))) = true := by
  induction entries with
  | nil =>
      rfl
  | cons entry entries ih =>
      simp [entriesReadable, isReadable, areReadable_map_string, ih]

theorem count?_natCast
    {n : Nat} (hn : n < Nat.pow 2 64) :
    count? (.integer n) = some n := by
  rw [count?, if_pos ⟨by omega, by exact_mod_cast hn⟩]
  rfl

theorem policy?_name
    (policy : UnknownFields) :
    policy? (.string policy.name) = some policy := by
  cases policy <;> decide

theorem paths?_array
    (ss : List String) :
    paths? (.array (ss.map .string)) = some ss := by
  have htexts : (ss.map string).mapM text? = some ss := by
    rw [List.mapM_map]
    exact (List.mapM_pure (f := id)).trans (by simp)
  exact htexts

/-- The fields of a table are those that its texts were made of. -/
theorem fields?_map_array
    (t : NameTable (List String)) :
    fields? (.table .header (t.entries.map fun entry => (entry.1, .array (entry.2.map .string)))) =
      some t := by
  have hentries :
      (t.entries.map fun entry => (entry.1, Toml.array (entry.2.map string))).mapM
          (fun entry => (paths? entry.2).map fun paths => (entry.1, paths)) =
        some t.entries := by
    rw [List.mapM_map]
    simp only [Function.comp_def, paths?_array, Option.map_some]
    exact (List.mapM_pure (f := id)).trans (by simp)
  simp [fields?, entries?, hentries, NameTable.ofList_entries]

end Toml

namespace Config

/-- The layer that sets all that a configuration has. -/
def fullLayer (c : Config) : Layer where
  limits := some ⟨some c.limits.maxDepth, some c.limits.maxTokens⟩
  options := some ⟨some c.options.unknownFields, some c.options.mergeRanges⟩
  fields := some c.fields

/-- The tables of the settings set all that the configuration has. -/
theorem ofEntries?_map_headed
    {c : Config} (hcounts : c.HasCounts) :
    Layer.ofEntries? (c.tables.map Toml.headed) = some c.fullLayer := by
  have hreadable : (c.tables.map Toml.headed).all Layer.isReadable = true := by
    simp [tables, Toml.headed, Layer.isReadable, Toml.isReadable, Toml.entriesReadable,
      Toml.entriesReadable_fields]
  have hlimits :
      Toml.limits? (.table .header
        [("max_depth", .integer c.limits.maxDepth), ("max_tokens", .integer c.limits.maxTokens)]) =
        some ⟨some c.limits.maxDepth, some c.limits.maxTokens⟩ := by
    simp [Toml.limits?, guard, Toml.hasParts, Toml.part?, Toml.entries?, Toml.optional?,
      Toml.count?_natCast hcounts.depth, Toml.count?_natCast hcounts.tokens, List.lookup]
  have hoptions :
      Toml.options? (.table .header
        [("unknown_fields", .string c.options.unknownFields.name),
          ("merge_ranges", .boolean c.options.mergeRanges)]) =
        some ⟨some c.options.unknownFields, some c.options.mergeRanges⟩ := by
    simp [Toml.options?, guard, Toml.hasParts, Toml.part?, Toml.entries?, Toml.optional?,
      Toml.policy?_name, Toml.boolean?, List.lookup]
  rw [Layer.ofEntries?, hreadable]
  simp [tables, guard, Toml.headed, List.lookup, Toml.optional?, hlimits, hoptions,
    Toml.fields?_map_array, fullLayer]

/-- The settings are read back as one layer that sets all that the configuration has. -/
theorem read?_settings
    {c : Config} (hcounts : c.HasCounts) :
    Layer.read? c.settings = some c.fullLayer := by
  rw [Layer.read?, toml_read?_settings hcounts]
  exact ofEntries?_map_headed hcounts

end Config

end Reading

section Counts

namespace Toml

/-- What is read as a count has 64 bits. -/
theorem lt_of_optional?_count?
    {t : Option Toml} {n : Nat} (hread : optional? count? t = some (some n)) :
    n < Nat.pow 2 64 := by
  cases t with
  | none =>
      cases hread
  | some t =>
      simp only [optional?, Option.map_eq_some_iff] at hread
      obtain ⟨m, hcount, hm⟩ := hread
      obtain rfl := Option.some.inj hm
      cases t with
      | integer k =>
          simp only [count?] at hcount
          split at hcount
          · rename_i hrange
            obtain rfl := Option.some.inj hcount
            omega
          · cases hcount
      | _ =>
          cases hcount

/-- The limits that a value sets have 64 bits. -/
theorem lt_of_limits?
    {t : Toml} {limits : LimitsLayer} (hread : limits? t = some limits) :
    (∀ n, limits.maxDepth = some n → n < Nat.pow 2 64) ∧
      ∀ n, limits.maxTokens = some n → n < Nat.pow 2 64 := by
  simp only [limits?, Option.bind_eq_bind, Option.bind_eq_some_iff] at hread
  obtain ⟨_, _, depth, hdepth, tokens, htokens, hlimits⟩ := hread
  obtain rfl := Option.some.inj hlimits
  constructor
  · rintro n rfl
    exact lt_of_optional?_count? hdepth
  · rintro n rfl
    exact lt_of_optional?_count? htokens

end Toml

theorem Layer.ofText_eq_ok_iff
    {path text : String} {layer : Layer} :
    Layer.ofText path text = .ok layer ↔ Layer.read? text = some layer := by
  unfold Layer.ofText
  cases Layer.read? text <;> simp

/-- The limits of a layer that is read have 64 bits. -/
theorem Layer.lt_of_read?
    {text : String} {layer : Layer} (hread : Layer.read? text = some layer) :
    (∀ n, layer.maxDepth? = some n → n < Nat.pow 2 64) ∧
      ∀ n, layer.maxTokens? = some n → n < Nat.pow 2 64 := by
  unfold Layer.read? at hread
  split at hread
  · cases hread
  · rename_i entries _
    simp only [ofEntries?, Option.bind_eq_bind, Option.bind_eq_some_iff] at hread
    obtain ⟨_, _, root, _, limits, hlimits, options, _, fields, _, hlayer⟩ := hread
    obtain rfl := Option.some.inj hlayer
    cases limits with
    | none =>
        simp [maxDepth?, maxTokens?]
    | some limits =>
        cases htable : entries.lookup "limits" with
        | none =>
            simp [htable, Toml.optional?] at hlimits
        | some t =>
            simp only [htable, Toml.optional?, Option.map_eq_some_iff] at hlimits
            obtain ⟨_, hread, heq⟩ := hlimits
            obtain rfl := Option.some.inj heq
            exact Toml.lt_of_limits? hread

end Counts

section Merging

namespace Config

/-- A configuration is merged from the layers of texts. -/
def MergedFromTexts (c : Config) : Prop :=
  ∃ layers, (∀ entry ∈ layers, ∃ text, Layer.ofText entry.1 text = .ok entry.2) ∧
    c = ofLayers layers

/-- The limits of a configuration that is merged from texts have 64 bits. -/
theorem MergedFromTexts.hasCounts
    {c : Config} (hmerged : c.MergedFromTexts) :
    c.HasCounts := by
  obtain ⟨layers, htexts, rfl⟩ := hmerged
  have hlayers : ∀ entry ∈ layers,
      (∀ n, entry.2.maxDepth? = some n → n < Nat.pow 2 64) ∧
        ∀ n, entry.2.maxTokens? = some n → n < Nat.pow 2 64 := by
    intro entry hentry
    obtain ⟨text, htext⟩ := htexts entry hentry
    exact Layer.lt_of_read? (Layer.ofText_eq_ok_iff.1 htext)
  constructor
  · exact of_value?_ofLayers .maxDepth (p := fun n : Nat => n < Nat.pow 2 64)
      (fun entry hmem => (hlayers entry hmem).1) (by rintro _ ⟨⟩; decide) rfl
  · exact of_value?_ofLayers .maxTokens (p := fun n : Nat => n < Nat.pow 2 64)
      (fun entry hmem => (hlayers entry hmem).2) (by rintro _ ⟨⟩; decide) rfl

/-- The fields of one layer are merged to themselves. -/
theorem fieldsOf_singleton
    {layer : Layer} {fields : NameTable (List String)} (hfields : layer.fields = some fields) :
    fieldsOf [layer] = fields := by
  refine NameTable.eq_of_find? fun name => ?_
  have hentries : layer.fieldEntries = fields.entries := by
    simp [Layer.fieldEntries, hfields]
  rw [find?_fieldsOf, List.findSome?_singleton, hentries]
  rfl

end Config

end Merging

/--
**Written settings load back unchanged.**  The settings of a configuration that is merged
from texts are a text that can be read.  What is read is no root, has both limits and
both options as they are in effect, and the same fields, whatever characters stand in
names and paths.  Merged alone, under any path, it gives the same limits, options and
fields.  Writing itself cannot fail: the settings are a text for every configuration.
-/
theorem settings_read_back
    {c : Config} (hmerged : c.MergedFromTexts) (path : String) :
    ∃ layer, Layer.ofText path c.settings = .ok layer ∧
      layer.root = none ∧
      layer.limits = some ⟨some c.limits.maxDepth, some c.limits.maxTokens⟩ ∧
      layer.options = some ⟨some c.options.unknownFields, some c.options.mergeRanges⟩ ∧
      layer.fields = some c.fields ∧
      (Config.ofLayers [(path, layer)]).limits = c.limits ∧
      (Config.ofLayers [(path, layer)]).options = c.options ∧
      (Config.ofLayers [(path, layer)]).fields = c.fields := by
  have hread := Config.read?_settings hmerged.hasCounts
  refine ⟨c.fullLayer, Layer.ofText_eq_ok_iff.2 hread, rfl, rfl, rfl, rfl, rfl, rfl, ?_⟩
  exact Config.fieldsOf_singleton rfl

/-- Quotes of both kinds, a backslash, a line break and an empty path come back. -/
theorem settings_read_back_quotes :
    ∃ c : Config, c.fields.entries = [("a\"", ["\\", "'\n", ""])] ∧
      ∃ layer, Layer.ofText "/b" c.settings = .ok layer ∧ layer.fields = some c.fields := by
  let layer : Layer := { fields := some (.ofList [("a\"", ["\\", "'\n", ""])]) }
  have htext : Layer.ofText "/a" "fields.'a\"' = ['\\', \"'\\n\", '']" = .ok layer := by
    cbv
  have hmerged : (Config.ofLayers [("/a", layer)]).MergedFromTexts := by
    refine ⟨_, ?_, rfl⟩
    rintro entry hmem
    obtain rfl := List.mem_singleton.1 hmem
    exact ⟨_, htext⟩
  obtain ⟨again, hread, _, _, _, hfields, _⟩ := settings_read_back hmerged "/b"
  exact ⟨_, by cbv, again, hread, hfields⟩

end FieldQuery
