import FieldQuery.Compilation.Basic
import FieldQuery.Query.Lexing
import FieldQuery.Toml.Reading

/-!
# Configuration layers

A configuration file is one layer of a configuration: every setting may be missing
from it.  Settings that are not known are passed over, but a known one has to be of
its kind.
-/

namespace FieldQuery

namespace UnknownFields

/-- The word for a policy. -/
def name : UnknownFields → String
  | reject => "reject"
  | passThrough => "pass-through"

/-- The policy that a word names. -/
def ofName? (word : String) : Option UnknownFields :=
  [reject, passThrough].find? (·.name = word)

end UnknownFields

/-- The limits that a layer sets. -/
structure LimitsLayer where
  maxDepth : Option Nat := none
  maxTokens : Option Nat := none
deriving DecidableEq, Repr

/-- The options of compilation that a layer sets. -/
structure OptionsLayer where
  unknownFields : Option UnknownFields := none
  mergeRanges : Option Bool := none
deriving DecidableEq, Repr

/-- What a configuration file sets. -/
structure Layer where
  /-- Whether files further up are left out. -/
  root : Option Bool := none
  limits : Option LimitsLayer := none
  options : Option OptionsLayer := none
  /-- The paths of field names. -/
  fields : Option (NameTable (List String)) := none

namespace Toml

/-- Whether a value may hold named parts. -/
def hasParts (t : Toml) : Bool :=
  t.entries?.isSome || t.items?.isSome

/-- A part of a value: a table has it under a name, an array at a position. -/
def part? (name : String) (position : Nat) (t : Toml) : Option Toml :=
  match t.entries? with
  | some entries => entries.lookup name
  | none => (t.items?.getD [])[position]?

/-- A part that may be missing, but has to be of its kind. -/
def optional? {α : Type} (read : Toml → Option α) : Option Toml → Option (Option α)
  | none => some none
  | some t => (read t).map some

/-- A truth value. -/
def boolean? : Toml → Option Bool
  | boolean b => some b
  | _ => none

/-- A text. -/
def text? : Toml → Option String
  | string s => some s
  | _ => none

/-- A count, which has 64 bits. -/
def count? : Toml → Option Nat
  | integer n => if 0 ≤ n ∧ n < Nat.pow 2 64 then some n.toNat else none
  | _ => none

/-- A policy: its word, or a table with nothing but its word for a name and nothing in it. -/
def policy? : Toml → Option UnknownFields
  | string s => UnknownFields.ofName? s
  | table _ [(name, content)] =>
      if content.isVoid then UnknownFields.ofName? name else none
  | _ => none

/-- The paths of a field: one text, or an array of texts. -/
def paths? : Toml → Option (List String)
  | string s => some [s]
  | t =>
      match t.items? with
      | none => none
      | some items => items.mapM text?

/-- The paths of field names. -/
def fields? (t : Toml) : Option (NameTable (List String)) := do
  let entries ← t.entries?
  let fields ← entries.mapM fun entry =>
    (paths? entry.2).map fun paths => (entry.1, paths)
  some (.ofList fields)

/-- The limits that a value sets. -/
def limits? (t : Toml) : Option LimitsLayer := do
  guard t.hasParts
  let maxDepth ← optional? count? (t.part? "max_depth" 0)
  let maxTokens ← optional? count? (t.part? "max_tokens" 1)
  some { maxDepth, maxTokens }

/-- The options that a value sets. -/
def options? (t : Toml) : Option OptionsLayer := do
  guard t.hasParts
  let unknownFields ← optional? policy? (t.part? "unknown_fields" 0)
  let mergeRanges ← optional? boolean? (t.part? "merge_ranges" 1)
  some { unknownFields, mergeRanges }

end Toml

namespace Layer

/-- The depth limit that a layer sets. -/
def maxDepth? (layer : Layer) : Option Nat :=
  layer.limits.bind LimitsLayer.maxDepth

/-- The limit of tokens that a layer sets. -/
def maxTokens? (layer : Layer) : Option Nat :=
  layer.limits.bind LimitsLayer.maxTokens

/-- The policy for unknown fields that a layer sets. -/
def unknownFields? (layer : Layer) : Option UnknownFields :=
  layer.options.bind OptionsLayer.unknownFields

/-- Whether ranges are merged, if a layer says so. -/
def mergeRanges? (layer : Layer) : Option Bool :=
  layer.options.bind OptionsLayer.mergeRanges

/-- The fields that a layer defines. -/
def fieldEntries (layer : Layer) : List (String × List String) :=
  (layer.fields.map NameTable.entries).getD []

/--
Whether every number that is looked at can be read.  Of the limits or the options as an
array, nothing behind the second item is looked at.
-/
def isReadable (entry : String × Toml) : Bool :=
  match entry with
  | ("limits", .array items) | ("compile", .array items) => Toml.areReadable (items.take 2)
  | (_, t) => t.isReadable

/-- The layer that the entries of a document set. -/
def ofEntries? (entries : Toml.Entries) : Option Layer := do
  guard (entries.all isReadable)
  let root ← Toml.optional? Toml.boolean? (entries.lookup "root")
  let limits ← Toml.optional? Toml.limits? (entries.lookup "limits")
  let options ← Toml.optional? Toml.options? (entries.lookup "compile")
  let fields ← Toml.optional? Toml.fields? (entries.lookup "fields")
  some { root, limits, options, fields }

/-- The layer that the text of a configuration file sets. -/
def read? (text : String) : Option Layer :=
  match Toml.read? text with
  | none => none
  | some entries => ofEntries? entries

end Layer

end FieldQuery
