/-!
# Command-line arguments

**Input**: the arguments of a call.

**Output**: what is asked for, or nothing if the arguments are misused.

A call names a command and may hold flags before and behind that name.  The flag for a
configuration file and the one for more messages belong to every command; the others
belong to one.  A flag may be given once, but for the one for more messages.  After two
dashes alone, everything is a word.
-/

namespace FieldQuery

/-- How a query that was read is shown. -/
inductive ParseView where
  | tree
  | canonical
  | tokens
  | tokensAsJson
deriving DecidableEq, Repr

/-- A command with what it was given. -/
inductive Command where
  | parse (query : String) (view : ParseView)
  | compile (query : String) (asJson passThrough keepRanges : Bool)
  | config (listFiles : Bool)
deriving DecidableEq, Repr

/-- A call of the program. -/
structure Invocation where
  /-- The configuration file to use in place of those that lie around. -/
  configFile : Option String
  /-- How many times more messages were asked for. -/
  verbosity : Nat
  command : Command
deriving DecidableEq, Repr

/-- The flags and words of one part of a call. -/
structure Arguments where
  configFile : Option String := none
  verbosity : Nat := 0
  switches : List String := []
  words : List String := []
deriving DecidableEq, Repr

namespace Arguments

/-- Whether an argument can be the value of the flag before it: no flag itself, and not empty. -/
def isValue (arg : String) : Bool :=
  match arg.toList with
  | [] => false
  | ['-'] => true
  | c :: _ => c ≠ '-'

/-- A long flag, split at its first equals sign. -/
def splitFlag (flag : List Char) : String × Option String :=
  (String.ofList (flag.takeWhile (· ≠ '=')),
    match flag.dropWhile (· ≠ '=') with
    | [] => none
    | _ :: value => some (String.ofList value))

/-- Sets the configuration file, once. -/
def setConfigFile? (a : Arguments) (path : String) : Option Arguments :=
  if a.configFile.isSome || path.isEmpty then none
  else some { a with configFile := some path }

/-- Sets a switch that is allowed, once. -/
def setSwitch? (allowed : List String) (a : Arguments) (name : String) : Option Arguments :=
  if name ∈ allowed ∧ name ∉ a.switches then some { a with switches := a.switches ++ [name] }
  else none

/--
Reads flags and words, up to the first word if `stopAtWord` says so.  What remains
starts with that word.
-/
def read? (allowed : List String) (stopAtWord : Bool) (a : Arguments) :
    List String → Option (Arguments × List String)
  | [] => some (a, [])
  | arg :: args =>
      match arg.toList with
      | ['-', '-'] => some ({ a with words := a.words ++ args }, [])
      | '-' :: '-' :: flag =>
          match splitFlag flag with
          | ("config", some path) =>
              match a.setConfigFile? path with
              | none => none
              | some a => read? allowed stopAtWord a args
          | ("config", none) =>
              match args with
              | [] => none
              | path :: args =>
                  if isValue path then
                    match a.setConfigFile? path with
                    | none => none
                    | some a => read? allowed stopAtWord a args
                  else
                    none
          | ("verbose", none) =>
              read? allowed stopAtWord { a with verbosity := a.verbosity + 1 } args
          | (name, none) =>
              match a.setSwitch? allowed name with
              | none => none
              | some a => read? allowed stopAtWord a args
          | (_, some _) => none
      | '-' :: c :: cs =>
          if (c :: cs).all (· = 'v') then
            read? allowed stopAtWord
              { a with verbosity := a.verbosity + (c :: cs).length } args
          else
            none
      | _ =>
          if stopAtWord then some (a, arg :: args)
          else read? allowed stopAtWord { a with words := a.words ++ [arg] } args

/--
The view of a query.  Tokens and canonical text exclude each other.  JSON needs tokens,
unless canonical text excludes them; then it changes nothing.
-/
def view? (a : Arguments) : Option ParseView :=
  match a.switches.contains "tokens", a.switches.contains "canonical",
    a.switches.contains "json" with
  | false, false, false => some .tree
  | false, false, true => none
  | false, true, _ => some .canonical
  | true, false, false => some .tokens
  | true, false, true => some .tokensAsJson
  | true, true, _ => none

end Arguments

namespace Command

/-- The switches of a command. -/
def switches? : String → Option (List String)
  | "parse" => some ["tokens", "canonical", "json"]
  | "compile" => some ["json", "pass-through", "no-merge"]
  | "config" => some ["files"]
  | _ => none

/-- A command by name, with its flags and words. -/
def ofArguments? (name : String) (a : Arguments) : Option Command :=
  match name, a.words with
  | "parse", [query] => a.view?.map (parse query)
  | "compile", [query] =>
      some (compile query (a.switches.contains "json") (a.switches.contains "pass-through")
        (a.switches.contains "no-merge"))
  | "config", [] => some (config (a.switches.contains "files"))
  | _, _ => none

end Command

namespace Invocation

/--
The call that arguments make.  Of the flags that belong to every command, those behind
the command's name count before those in front of it.
-/
def ofArguments? (args : List String) : Option Invocation := do
  let (before, rest) ← Arguments.read? [] true {} args
  match rest with
  | [] => none
  | name :: rest =>
      let switches ← Command.switches? name
      let (behind, _) ← Arguments.read? switches false {} rest
      let command ← Command.ofArguments? name behind
      some {
        configFile := behind.configFile.or before.configFile
        verbosity := if behind.verbosity = 0 then before.verbosity else behind.verbosity
        command }

end Invocation

end FieldQuery
