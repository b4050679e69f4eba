import FieldQuery.Compilation.Basic
import FieldQuery.Config.Loading
import FieldQuery.Query.Parsing

/-!
# Log messages

What happens on the way is reported in messages of four levels.  A message is shown if
its level is within the verbosity asked for.
-/

namespace FieldQuery

/-- How much is shown: nothing, or messages up to a level of detail. -/
inductive Verbosity where
  | off
  | error
  | warn
  | info
  | debug
  | trace
deriving DecidableEq, Repr

namespace Verbosity

/-- All verbosities, from the least. -/
def all : List Verbosity :=
  [off, error, warn, info, debug, trace]

/-- The word for a verbosity. -/
def name : Verbosity → String
  | off => "off"
  | error => "error"
  | warn => "warn"
  | info => "info"
  | debug => "debug"
  | trace => "trace"

/-- How many verbosities are less. -/
def rank : Verbosity → Nat
  | off => 0
  | error => 1
  | warn => 2
  | info => 3
  | debug => 4
  | trace => 5

/-- Whether a text starts as a word may, white space aside; characters beyond ASCII may. -/
def startsWord (cs : List Char) : Bool :=
  match cs.dropWhile Text.isBlank with
  | [] => false
  | c :: _ => c.isAlphanum || 0x80 ≤ c.toNat || c = '-' || c = ':' || c = '_' || c = '['

/-- Whether a word, its letters in lower case, names a verbosity or is its rank in digits. -/
def isNamed (word : List Char) (v : Verbosity) : Bool :=
  v.name.toList = word || (word.all Char.isDigit && digitsValue word = v.rank)

/--
The verbosity that a text asks for: by its word in either case of ASCII letters, or by
its rank.  Any other word asks for something there is no message about, an empty text
for errors, and a text that does not start like a word for nothing, so that warnings are
shown.
-/
def ofText (s : String) : Verbosity :=
  if s.isEmpty then error
  else if startsWord s.toList then
    (all.find? (isNamed (s.toList.map Char.toLower))).getD off
  else
    warn

/--
The verbosity in effect: as often as more was asked for on the command line, else what
the environment asks for, else warnings.
-/
def choose (asked : Nat) (environment : Option String) : Verbosity :=
  match asked with
  | 0 => (environment.map ofText).getD warn
  | 1 => debug
  | _ => trace

end Verbosity

/-- Something worth a message. -/
inductive Event where
  /-- A configuration file was met on the way up. -/
  | foundFile (found : Config.Found)
  /-- A query was split into tokens. -/
  | tokenized (count : Nat)
  /-- A field name has paths. -/
  | resolved (field : String) (paths : Nat)
  /-- A field name has no paths and stands for itself. -/
  | passedThrough (field : String)
  /-- An expression was compiled. -/
  | compiled (root : Operator) (depth atoms fields : Nat)
deriving DecidableEq, Repr

namespace Event

/-- The verbosity that an event needs. -/
def level : Event → Verbosity
  | foundFile _ | tokenized _ | resolved _ _ => .trace
  | passedThrough _ => .warn
  | compiled _ _ _ _ => .debug

/-- The message of an event. -/
def message : Event → String
  | foundFile found =>
      "found config file path=" ++ found.path ++ " is_root=" ++ toString found.isRoot
  | tokenized count => "tokenized query tokens=" ++ count.repr
  | resolved field paths =>
      "resolved field field=" ++ Text.quoted field ++ " aliases=" ++ paths.repr
  | passedThrough field =>
      "passing unknown field through unresolved field=" ++ Text.quoted field
  | compiled root depth atoms fields =>
      "compiled query root=" ++ root.name ++ " depth=" ++ depth.repr
        ++ " leaves=" ++ atoms.repr ++ " fields=" ++ fields.repr

/-- The line of an event. -/
def line (e : Event) : String :=
  String.ofList (e.level.name.toList.map Char.toUpper) ++ " " ++ e.message

/-- Whether an event is shown. -/
def isShown (v : Verbosity) (e : Event) : Bool :=
  e.level.rank ≤ v.rank

/-- What happens when a query is split into tokens. -/
def ofReading (limits : Limits) (query : String) : List Event :=
  match tokenize limits query with
  | .ok tokens => [tokenized tokens.length]
  | .error _ => []

/-- What happens when field names are resolved, up to the first that is rejected. -/
def ofNames (resolver : Resolver) (policy : UnknownFields) : List String → List Event
  | [] => []
  | name :: names =>
      match resolver name, policy with
      | some aliases, _ => resolved name aliases.count :: ofNames resolver policy names
      | none, .passThrough => passedThrough name :: ofNames resolver policy names
      | none, .reject => []

/-- What happens when an expression without gaps is compiled. -/
def ofCompiling (options : CompileOptions) (resolver : Resolver) (e : Expr) : List Event :=
  ofNames resolver options.unknownFields e.fieldNames
    ++ (match e.compile options resolver with
      | .ok p => [compiled e.operator e.depth p.atomCount p.fields.length]
      | .error _ => [])

end Event

end FieldQuery
