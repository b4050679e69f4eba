import FieldQuery.Compilation.Basic
import FieldQuery.Query.Parsing

/-!
# From query text to predicate

An engine bundles the limits of reading with the options of compiling.  A run
gives a whole predicate or one error.
-/

namespace FieldQuery

/-- The limits of reading and the options of compiling. -/
structure Engine where
  limits : Limits := {}
  options : CompileOptions := {}
deriving DecidableEq, Repr

/-- Why a query has no predicate. -/
inductive EngineError where
  | malformedQuery (e : SyntaxError)
  | unknownField (name : String)
deriving DecidableEq, Repr

namespace EngineError

/--
A compile error as an error of a whole run.  A gap can only be in a tree that was
not read from a query, so it has no query to point into.
-/
def ofCompile : CompileError → EngineError
  | .unknownField name => unknownField name
  | .malformed gap => malformedQuery ⟨.arity, gap.message, "", 0, ""⟩

/-- The wording of an error, without its place. -/
def message : EngineError → String
  | malformedQuery e => e.message
  | unknownField name => "unknown field: " ++ name

/-- The offending fragment. -/
def fragment : EngineError → String
  | malformedQuery e => e.fragment
  | unknownField name => name

/-- The whole text of an error. -/
def display : EngineError → String
  | malformedQuery e => e.display
  | unknownField name => "unknown field: " ++ name

end EngineError

namespace Engine

/-- The predicate of a query. -/
def run (engine : Engine) (resolver : Resolver) (query : String) :
    Except EngineError Predicate :=
  match parse engine.limits query with
  | .error e => .error (.malformedQuery e)
  | .ok e => (e.compile engine.options resolver).mapError .ofCompile

end Engine

end FieldQuery
