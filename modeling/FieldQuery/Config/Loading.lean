import FieldQuery.Config.Basic
import FieldQuery.Files.Tree
import FieldQuery.Text.Characters

/-!
# Finding and loading configuration files

Configuration files lie in a directory and those above it, and one in the home
directory comes last.  Each is read, and what it sets is checked, before anything is
merged; the first file at fault, the closest first, decides the error.
-/

namespace FieldQuery

/-- The two limits. -/
inductive LimitName where
  | maxDepth
  | maxTokens
deriving DecidableEq, Repr

/-- The name of a limit in a configuration file. -/
def LimitName.key : LimitName → String
  | .maxDepth => "max_depth"
  | .maxTokens => "max_tokens"

/-- A text with the path that it came from. -/
structure SourceText where
  path : String
  text : String
deriving DecidableEq, Repr

/-- What a reader of TOML has to say about a text that it refuses, if anything. -/
abbrev Remarks :=
  String → Option String

/-- A reader of TOML that says nothing. -/
def Remarks.none : Remarks :=
  fun _ => .none

/-- Why a configuration file cannot be used. -/
inductive ConfigError where
  | unreadable (path : String) (cause : FileError)
  /-- The text is no TOML, or a setting in it is of the wrong kind. -/
  | malformed (source : SourceText)
  | zeroLimit (path : String) (limit : LimitName)
  | noPaths (path field : String)
deriving DecidableEq, Repr

namespace ConfigError

/-- The file at fault. -/
def path : ConfigError → String
  | unreadable path _ | zeroLimit path _ | noPaths path _ => path
  | malformed source => source.path

/-- The wording of an error; that of a malformed text ends in a remark about the text. -/
def message (e : ConfigError) (remarks : Remarks := .none) : String :=
  match e with
  | unreadable path cause =>
      "failed to read config file " ++ path ++ ": " ++ cause.message
  | malformed source =>
      "failed to parse config file " ++ source.path
        ++ ((remarks source.text).map (": " ++ ·)).getD ""
  | zeroLimit path limit => path ++ ": limits." ++ limit.key ++ " must be at least 1"
  | noPaths path field =>
      path ++ ": field '" ++ field ++ "' must map to at least one non-empty path"

end ConfigError

namespace Layer

/-- The first limit that is zero. -/
def zeroLimit? (layer : Layer) : Option LimitName :=
  if layer.maxDepth? = some 0 then some .maxDepth
  else if layer.maxTokens? = some 0 then some .maxTokens
  else none

/-- The first field, in the order of names, that has no path or a blank one. -/
def fieldWithoutPath? (layer : Layer) : Option String :=
  (layer.fieldEntries.find? fun entry =>
    entry.2.isEmpty || entry.2.any Text.allBlank).map Prod.fst

/-- The first thing that is wrong with a layer: limits come before fields. -/
def fault? (path : String) (layer : Layer) : Option ConfigError :=
  match layer.zeroLimit? with
  | some limit => some (.zeroLimit path limit)
  | none => layer.fieldWithoutPath?.map (.noPaths path)

/-- The layer that a text sets, which came from a path. -/
def ofText (path text : String) : Except ConfigError Layer :=
  match read? text with
  | none => .error (.malformed ⟨path, text⟩)
  | some layer => .ok layer

/-- The layer of a file, if it is a usable one. -/
def load (files : Files) (path : String) : Except ConfigError Layer :=
  match files path with
  | .error cause => .error (.unreadable path cause)
  | .ok text =>
      match ofText path text with
      | .error e => .error e
      | .ok layer =>
          match layer.fault? path with
          | some e => .error e
          | none => .ok layer

/-- The layers of several files with their paths, up to the first fault. -/
def loadAll (files : Files) : List String → Except ConfigError (List (String × Layer))
  | [] => .ok []
  | path :: paths =>
      match load files path with
      | .error e => .error e
      | .ok layer =>
          match loadAll files paths with
          | .error e => .error e
          | .ok layers => .ok ((path, layer) :: layers)

/-- Whether a file says that files further up are left out; one that cannot be read does not. -/
def isRoot (files : Files) (path : String) : Bool :=
  match files path with
  | .error _ => false
  | .ok text =>
      match read? text with
      | none => false
      | some layer => layer.root = some true

end Layer

namespace Config

/-- The configuration of files, the closest first. -/
def load (files : Files) (paths : List String) : Except ConfigError Config :=
  match Layer.loadAll files paths with
  | .error e => .error e
  | .ok layers => .ok (ofLayers layers)

/-- The name of configuration files. -/
def fileName : String :=
  ".sift.toml"

/-- A configuration file on the way up, and whether the way ends there. -/
structure Found where
  path : String
  isRoot : Bool
deriving DecidableEq, Repr

/-- The configuration files in the given directories, up to the first that is a root. -/
def climb (files : Files) : List String → List Found
  | [] => []
  | directory :: directories =>
      let path := Path.child directory fileName
      if files.hasFile path then
        if Layer.isRoot files path then [⟨path, true⟩]
        else ⟨path, false⟩ :: climb files directories
      else
        climb files directories

/-- The configuration file in the home directory. -/
def homeFile (home : String) : String :=
  Path.child home fileName

/-- Whether a path is that of the configuration file in the home directory. -/
def isHomeFile (home path : String) : Bool :=
  Path.same path (homeFile home)

/--
The configuration files for a directory, the closest first.  The one in the home
directory comes last, unless a root was found or it was met on the way up.
-/
def discover (files : Files) (home directory : String) : List String :=
  let found := climb files (Path.lineage directory)
  let paths := found.map Found.path
  if found.any Found.isRoot || !files.hasFile (homeFile home)
      || paths.any (isHomeFile home) then paths
  else paths ++ [homeFile home]

/-- The paths that discovery may ask about. -/
def candidates (home directory : String) : List String :=
  (Path.lineage directory).map (Path.child · fileName) ++ [homeFile home]

end Config

end FieldQuery
