import FieldQuery.Command.Arguments
import FieldQuery.Command.Log
import FieldQuery.Predicate.Display

/-!
# Running commands

**Input**: a call, the files around, and the two directories that matter.

**Output**: what is printed, what is worth a message, the lines of an error, and the exit
status.

The configuration is loaded first, whatever the command is.  A command that fails reports
one error in place of what it would have printed.
-/

namespace FieldQuery

/-- What a call gives. -/
structure Outcome where
  log : List Event := []
  /-- The text on the standard output. -/
  output : String := ""
  /-- The lines on the error output that are no messages. -/
  errors : List String := []
  exitStatus : Nat := 0

namespace Outcome

/-- A text is printed. -/
def printing (text : String) : Outcome where
  output := text

/-- An error is reported. -/
def failing (message : String) : Outcome where
  errors := ["error: " ++ message]
  exitStatus := 1

/-- The same, with events that came before. -/
def after (log : List Event) (o : Outcome) : Outcome :=
  { o with log := log ++ o.log }

/-- The text on the error output: messages, and then errors. -/
def errorOutput (v : Verbosity) (o : Outcome) : String :=
  String.join ((o.log.filter (·.isShown v)).map fun e => e.line ++ "\n")
    ++ String.join (o.errors.map fun line => line ++ "\n")

end Outcome

namespace TokenKind

/-- The class of a token in one word. -/
def className : TokenKind → String
  | operator _ => "operator"
  | literal l => if l.quoted then "quoted" else "literal"
  | openParen => "lparen"
  | closeParen => "rparen"
  | groupSep => "group-sep"
  | fieldSep => "field-sep"

end TokenKind

namespace Token

/-- A text with spaces behind it up to a width. -/
def padTo (width : Nat) (s : String) : String :=
  s ++ String.ofList (List.replicate (width - s.length) ' ')

/-- The line of a token: where it is, its class and its spelling. -/
def line (t : Token) : String :=
  padTo 9 (t.start.repr ++ ".." ++ t.stop.repr) ++ " " ++ padTo 10 t.kind.className
    ++ " " ++ t.text ++ "\n"

/-- A token for interchange. -/
def toJson (t : Token) : Json :=
  .object [("kind", .string t.kind.className), ("text", .string t.text),
    ("start", .integer t.start), ("end", .integer t.stop)]

end Token

/-- JSON is printed; every value has a text. -/
def Outcome.printingJson (j : Json) : Outcome :=
  .printing (j.spread ++ "\n")

/-- Shows a query in a view. -/
def ParseView.run (view : ParseView) (limits : Limits) (query : String) : Outcome :=
  match view with
  | .tokens =>
      match tokenize limits query with
      | .ok ts => .printing (String.join (ts.map Token.line))
      | .error e => .failing e.display
  | .tokensAsJson =>
      match tokenize limits query with
      | .ok ts => .printingJson (.array (ts.map Token.toJson))
      | .error e => .failing e.display
  | .canonical =>
      match parse limits query with
      | .ok e => .printing (e.canonical ++ "\n")
      | .error e => .failing e.display
  | .tree =>
      match parse limits query with
      | .ok e => .printing e.tree
      | .error e => .failing e.display

/-- What happens when a query is read for a view; tokens by themselves are no event. -/
def ParseView.log (view : ParseView) (limits : Limits) (query : String) : List Event :=
  match view with
  | .tree | .canonical => Event.ofReading limits query
  | .tokens | .tokensAsJson => []

namespace Command

/-- The engine of a compilation: flags change what the configuration says. -/
def compileEngine (c : Config) (passThrough keepRanges : Bool) : Engine where
  limits := c.limits
  options :=
    { unknownFields := if passThrough then .passThrough else c.options.unknownFields
      mergeRanges := !keepRanges && c.options.mergeRanges }

/-- The lines that name configuration files. -/
def listFiles : List String → String
  | [] => "No configuration files found.\n"
  | paths => String.join (paths.map fun path => path ++ "\n")

/-- Compiles a query by an engine and shows its predicate. -/
def runCompile (engine : Engine) (resolver : Resolver) (query : String) (asJson : Bool) :
    Outcome :=
  match engine.run resolver query with
  | .ok p => if asJson then .printingJson p.toJson else .printing p.display
  | .error e => .failing e.display

/-- What happens when a query is compiled. -/
def compileLog (engine : Engine) (resolver : Resolver) (query : String) : List Event :=
  Event.ofReading engine.limits query
    ++ (match FieldQuery.parse engine.limits query with
      | .ok e => Event.ofCompiling engine.options resolver e
      | .error _ => [])

/-- Runs a command under a configuration that came from files. -/
def run (c : Config) (paths : List String) : Command → Outcome
  | parse query view => (view.run c.limits query).after (view.log c.limits query)
  | compile query asJson passThrough keepRanges =>
      let engine := compileEngine c passThrough keepRanges
      let resolver := c.aliasTable.resolver
      (runCompile engine resolver query asJson).after (compileLog engine resolver query)
  | config true => .printing (listFiles paths)
  | config false => .printing c.settings

end Command

namespace Invocation

/-- The configuration files met on the way up, when the call looks for any. -/
def climb (i : Invocation) (files : Files) (directory : String) : List Config.Found :=
  match i.configFile with
  | some _ => []
  | none => Config.climb files (Path.lineage directory)

/-- The configuration files of a call, the closest first. -/
def paths (i : Invocation) (files : Files) (home directory : String) : List String :=
  match i.configFile with
  | some path => [path]
  | none => Config.discover files home directory

/-- The paths that a call may ask about. -/
def candidates (i : Invocation) (home directory : String) : List String :=
  match i.configFile with
  | some path => [path]
  | none => Config.candidates home directory

/-- Runs a call from a directory. -/
def run (i : Invocation) (files : Files) (home directory : String)
    (remarks : Remarks := .none) : Outcome :=
  let met := (i.climb files directory).map Event.foundFile
  let paths := i.paths files home directory
  match Config.load files paths with
  | .error e =>
      (Outcome.failing ("failed to load configuration: " ++ e.message remarks)).after met
  | .ok c => (i.command.run c paths).after met

end Invocation

end FieldQuery
