import FieldQuery.Config.Layer
import FieldQuery.Compilation.Run
import FieldQuery.Files.Path
import FieldQuery.Toml.Writing

/-!
# Configurations

A configuration is made of layers, the closest first.  For every single setting the
first layer that defines it counts, for every field name likewise, and what no layer
defines has a default.
-/

namespace FieldQuery

/-- Settings in effect. -/
structure Config where
  limits : Limits := {}
  options : CompileOptions := {}
  /-- The paths of field names; a name may have none. -/
  fields : NameTable (List String) := .empty
  /-- The directory of the closest layer. -/
  directory : Option String := none

namespace Config

/-- Limits, where those that a layer sets are put in place of what they were. -/
def overwriteLimits (layer : Layer) (limits : Limits) : Limits :=
  match layer.limits with
  | none => limits
  | some set =>
      { maxDepth := set.maxDepth.getD limits.maxDepth
        maxTokens := set.maxTokens.getD limits.maxTokens }

/-- The limits in effect: every layer overwrites the defaults, the closest one last. -/
def limitsOf (layers : List Layer) : Limits :=
  layers.foldr overwriteLimits {}

/-- Options, where those that a layer sets are put in place of what they were. -/
def overwriteOptions (layer : Layer) (options : CompileOptions) : CompileOptions :=
  match layer.options with
  | none => options
  | some set =>
      { unknownFields := set.unknownFields.getD options.unknownFields
        mergeRanges := set.mergeRanges.getD options.mergeRanges }

/-- The options in effect: every layer overwrites the defaults, the closest one last. -/
def optionsOf (layers : List Layer) : CompileOptions :=
  layers.foldr overwriteOptions {}

/-- Adds the fields of a layer that no closer one has defined. -/
def keepFields (fields : NameTable (List String)) (layer : Layer) : NameTable (List String) :=
  layer.fieldEntries.foldl (fun fields entry => fields.keep entry.1 entry.2) fields

/-- The fields in effect. -/
def fieldsOf (layers : List Layer) : NameTable (List String) :=
  layers.foldl keepFields .empty

/-- The configuration of layers with the paths of their files, the closest first. -/
def ofLayers (layers : List (String × Layer)) : Config where
  limits := limitsOf (layers.map Prod.snd)
  options := optionsOf (layers.map Prod.snd)
  fields := fieldsOf (layers.map Prod.snd)
  directory := layers.head?.bind fun layer => Path.parent? layer.1

/-- The engine that a configuration asks for. -/
def engine (c : Config) : Engine where
  limits := c.limits
  options := c.options

/--
The paths of field names as a table for compilation, names without paths left out.
Where no name is left, every name stands for itself.
-/
def aliasTable (c : Config) : AliasTable :=
  let table :=
    AliasTable.ofList (c.fields.entries.filterMap fun (name, paths) =>
      (Aliases.ofPaths? paths).map fun aliases => (name, aliases))
  if table.entries.isEmpty then table.withFallback else table

/-- The lines of the settings, one table for each kind. -/
def writeSettings (c : Config) : List Char :=
  Toml.writeHeader "limits"
    ++ Toml.writeEntry "max_depth" (natDigits c.limits.maxDepth)
    ++ Toml.writeEntry "max_tokens" (natDigits c.limits.maxTokens)
    ++ '\n' :: Toml.writeHeader "compile"
    ++ Toml.writeEntry "unknown_fields" (Toml.writeText c.options.unknownFields.name)
    ++ Toml.writeEntry "merge_ranges" (toString c.options.mergeRanges).toList
    ++ '\n' :: Toml.writeHeader "fields"
    ++ c.fields.entries.flatMap fun (name, paths) =>
      Toml.writeEntry name (Toml.writeTexts paths)

/--
The settings as the text of a configuration file.  Writing them cannot fail: what they
hold are whole numbers, truth values, texts and arrays of texts, under names that are
texts, and each of these has a form in TOML.
-/
def settings (c : Config) : String :=
  String.ofList c.writeSettings

end Config

end FieldQuery
