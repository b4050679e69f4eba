import FieldQuery.Command.Running
import FieldQuery.Proofs.CompileFailures

/-!
# The commands agree with one another

The commands go different ways from one configuration: some only need the tokens of a
query, some its expression, and one its predicate, with options that flags may change.
They still fail for the same reasons and in the same words.  Where the configuration
cannot be loaded, every command says so.  Where a query has no tokens, it has no
expression, and where it has no expression, it has no predicate.  Where it has one, only
a field name that is not known can stand in the way of a predicate.

A run is judged by what can be seen of it: its exit status, what is printed, and what is
on the error output besides messages.  Every command gives these by itself, so it has to
be shown that each of them either prints a text or reports one error.

**Results.**

* `Outcome.Ends.succeeds_or_fails`: a run that prints or reports an error, and nothing else;
* `Surroundings.outcome_ends`: every run of a command is one;
* `fails_of_config_error`, `fails_parse_iff`, `fails_tokens_iff`, `fails_compile_iff`: how
  each command fails;
* `fails_compile_iff_of_parse_error`, `fails_compile_iff_of_parse_ok`: how compiling fails
  where the query cannot be read, and where it can;
* `commands_agree`: how the failures of the commands go together.
-/

namespace FieldQuery

section Outcomes

namespace Outcome

/-- The messages on the error output. -/
def messages (v : Verbosity) (o : Outcome) : String :=
  String.join ((o.log.filter (·.isShown v)).map fun e => e.line ++ "\n")

/-- A run that prints nothing, and has one error behind its messages. -/
structure Fails (o : Outcome) (message : String) : Prop where
  exitStatus : o.exitStatus = 1
  output : o.output = ""
  errorOutput : ∀ v, o.errorOutput v = o.messages v ++ ("error: " ++ message ++ "\n")

/-- A run that has nothing but messages on the error output. -/
structure Succeeds (o : Outcome) : Prop where
  exitStatus : o.exitStatus = 0
  errorOutput : ∀ v, o.errorOutput v = o.messages v

variable {o : Outcome} {log : List Event} {text message message' : String}

theorem fails_iff :
    o.Fails message ↔
      o.exitStatus = 1 ∧ o.output = "" ∧
        String.join (o.errors.map fun line => line ++ "\n") = "error: " ++ message ++ "\n" := by
  constructor
  · rintro ⟨hstatus, houtput, herror⟩
    exact ⟨hstatus, houtput, (String.append_right_inj _).1 (herror .off)⟩
  · rintro ⟨hstatus, houtput, herror⟩
    exact ⟨hstatus, houtput, fun v => congrArg (o.messages v ++ ·) herror⟩

theorem succeeds_iff :
    o.Succeeds ↔
      o.exitStatus = 0 ∧ String.join (o.errors.map fun line => line ++ "\n") = "" := by
  constructor
  · rintro ⟨hstatus, herror⟩
    exact ⟨hstatus, (String.append_right_inj _).1 ((herror .off).trans String.append_empty.symm)⟩
  · rintro ⟨hstatus, herror⟩
    refine ⟨hstatus, fun v => ?_⟩
    rw [errorOutput, herror, String.append_empty, messages]

theorem after_after (log log' : List Event) :
    (o.after log').after log = o.after (log ++ log') := by
  simp only [after, List.append_assoc]

theorem fails_after_iff :
    (o.after log).Fails message ↔ o.Fails message := by
  simp only [fails_iff, after]

theorem succeeds_after_iff :
    (o.after log).Succeeds ↔ o.Succeeds := by
  simp only [succeeds_iff, after]

theorem succeeds_printing (text : String) :
    (printing text).Succeeds :=
  succeeds_iff.2 ⟨rfl, rfl⟩

theorem not_fails_printing :
    ¬ (printing text).Fails message := by
  rintro ⟨hstatus, _, _⟩
  cases hstatus

theorem fails_failing_iff :
    (failing message').Fails message ↔ message' = message := by
  simp [fails_iff, failing, String.join]

theorem not_succeeds_failing :
    ¬ (failing message).Succeeds := by
  rintro ⟨hstatus, _⟩
  cases hstatus

/-- A run prints a text or reports an error, and does nothing else besides messages. -/
inductive Ends : Outcome → Prop
  | printing
      (log : List Event) (text : String) :
      Ends ((printing text).after log)
  | failing
      (log : List Event) (message : String) :
      Ends ((failing message).after log)

theorem Ends.after
    (hends : o.Ends) (log : List Event) :
    (o.after log).Ends := by
  cases hends with
  | printing log' text =>
      rw [after_after]
      exact .printing (log ++ log') text
  | failing log' message =>
      rw [after_after]
      exact .failing (log ++ log') message

/-- Such a run either succeeds or fails. -/
theorem Ends.succeeds_or_fails
    (hends : o.Ends) :
    o.Succeeds ∨ ∃ message, o.Fails message := by
  cases hends with
  | printing log text =>
      exact .inl (succeeds_after_iff.2 (succeeds_printing text))
  | failing log message =>
      exact .inr ⟨message, fails_after_iff.2 (fails_failing_iff.2 rfl)⟩

theorem Ends.succeeds_iff_forall_not_fails
    (hends : o.Ends) :
    o.Succeeds ↔ ∀ message, ¬ o.Fails message := by
  cases hends with
  | printing log text =>
      exact iff_of_true (succeeds_after_iff.2 (succeeds_printing text))
        fun message hfails => not_fails_printing (fails_after_iff.1 hfails)
  | failing log message =>
      exact iff_of_false (fun hsucceeds => not_succeeds_failing (succeeds_after_iff.1 hsucceeds))
        fun hnever => hnever message (fails_after_iff.2 (fails_failing_iff.2 rfl))

end Outcome

end Outcomes

/-- What surrounds a call: files, the two directories, and the configuration file asked for. -/
structure Surroundings where
  files : Files
  home : String
  directory : String
  configFile : Option String
  /-- What is said of a malformed configuration file. -/
  remarks : Remarks

namespace Surroundings

/-- The configuration files of every call, the closest first. -/
def paths (s : Surroundings) : List String :=
  match s.configFile with
  | some path => [path]
  | none => Config.discover s.files s.home s.directory

/-- The configuration of every call. -/
def config (s : Surroundings) : Except ConfigError Config :=
  Config.load s.files s.paths

/-- What a command gives, where messages may have been asked for any number of times. -/
def outcome (s : Surroundings) (verbosity : Nat) (command : Command) : Outcome :=
  Invocation.run ⟨s.configFile, verbosity, command⟩ s.files s.home s.directory s.remarks

end Surroundings

/-- Whether a view shows the tokens of a query and needs nothing else. -/
def ParseView.isOfTokens : ParseView → Bool
  | tree | canonical => false
  | tokens | tokensAsJson => true

section Endings

theorem ParseView.run_ends
    (view : ParseView) (limits : Limits) (query : String) :
    (view.run limits query).Ends := by
  cases view with
  | tree | canonical =>
      unfold ParseView.run
      dsimp only
      cases parse limits query with
      | ok e =>
          exact .printing [] _
      | error err =>
          exact .failing [] _
  | tokens | tokensAsJson =>
      unfold ParseView.run
      dsimp only
      cases tokenize limits query with
      | ok tokens =>
          exact .printing [] _
      | error err =>
          exact .failing [] _

theorem Command.runCompile_ends
    (engine : Engine) (resolver : Resolver) (query : String) (asJson : Bool) :
    (Command.runCompile engine resolver query asJson).Ends := by
  unfold Command.runCompile
  cases engine.run resolver query with
  | ok p =>
      cases asJson <;> exact .printing [] _
  | error err =>
      exact .failing [] _

/-- Under a configuration every command prints a text or reports an error. -/
theorem Command.run_ends
    (c : Config) (paths : List String) (command : Command) :
    (command.run c paths).Ends := by
  cases command with
  | parse query view =>
      exact (view.run_ends c.limits query).after _
  | compile query asJson passThrough keepRanges =>
      exact (Command.runCompile_ends _ _ query asJson).after _
  | config listFiles =>
      cases listFiles <;> exact .printing [] _

/-- **Every run prints a text or reports an error.** -/
theorem Surroundings.outcome_ends
    (s : Surroundings) (n : Nat) (command : Command) :
    (s.outcome n command).Ends := by
  unfold Surroundings.outcome Invocation.run
  dsimp only
  split
  · exact .failing _ _
  · exact (Command.run_ends _ _ command).after _

end Endings

section Failures

variable {s : Surroundings} {n : Nat} {command : Command} {c : Config} {query message : String}

/-- Without a configuration every command fails in the same words. -/
theorem fails_of_config_error
    {err : ConfigError} (hconfig : s.config = .error err) :
    (s.outcome n command).Fails
      ("failed to load configuration: " ++ err.message s.remarks) := by
  have hload :
      Config.load s.files
        (Invocation.paths ⟨s.configFile, n, command⟩ s.files s.home s.directory) =
          .error err := hconfig
  rw [Surroundings.outcome, Invocation.run, hload]
  exact Outcome.fails_after_iff.2 (Outcome.fails_failing_iff.2 rfl)

/-- With a configuration a command fails as it does under that configuration. -/
theorem fails_iff_of_config_ok
    (hconfig : s.config = .ok c) :
    (s.outcome n command).Fails message ↔ (command.run c s.paths).Fails message := by
  have hload :
      Config.load s.files
        (Invocation.paths ⟨s.configFile, n, command⟩ s.files s.home s.directory) =
          .ok c := hconfig
  rw [Surroundings.outcome, Invocation.run, hload]
  exact Outcome.fails_after_iff

/-- Showing an expression fails where the query cannot be read. -/
theorem fails_parse_iff
    (hconfig : s.config = .ok c) {view : ParseView} (hview : view.isOfTokens = false) :
    (s.outcome n (.parse query view)).Fails message ↔
      ∃ err, parse c.limits query = .error err ∧ err.display = message := by
  rw [fails_iff_of_config_ok hconfig, Command.run, Outcome.fails_after_iff]
  cases view with
  | tree | canonical =>
      cases hparse : parse c.limits query with
      | ok e =>
          simp [ParseView.run, hparse, Outcome.not_fails_printing]
      | error err =>
          simp [ParseView.run, hparse, Outcome.fails_failing_iff]
  | tokens | tokensAsJson =>
      cases hview

/-- Showing tokens fails where the query cannot be split into tokens. -/
theorem fails_tokens_iff
    (hconfig : s.config = .ok c) {view : ParseView} (hview : view.isOfTokens = true) :
    (s.outcome n (.parse query view)).Fails message ↔
      ∃ err, tokenize c.limits query = .error err ∧ err.display = message := by
  rw [fails_iff_of_config_ok hconfig, Command.run, Outcome.fails_after_iff]
  cases view with
  | tree | canonical =>
      cases hview
  | tokens | tokensAsJson =>
      cases htokens : tokenize c.limits query with
      | ok tokens =>
          simp [ParseView.run, htokens, Outcome.printingJson, Outcome.not_fails_printing]
      | error err =>
          simp [ParseView.run, htokens, Outcome.fails_failing_iff]

/-- Compiling fails where the engine gives no predicate. -/
theorem fails_compile_iff
    (hconfig : s.config = .ok c) {asJson passThrough keepRanges : Bool} :
    (s.outcome n (.compile query asJson passThrough keepRanges)).Fails message ↔
      ∃ err, (Command.compileEngine c passThrough keepRanges).run c.aliasTable.resolver query =
        .error err ∧ err.display = message := by
  rw [fails_iff_of_config_ok hconfig, Command.run, Outcome.fails_after_iff, Command.runCompile]
  cases (Command.compileEngine c passThrough keepRanges).run c.aliasTable.resolver query with
  | ok p =>
      cases asJson <;> simp [Outcome.printingJson, Outcome.not_fails_printing]
  | error err =>
      simp [Outcome.fails_failing_iff]

/-- A query that cannot be split into tokens cannot be read, for the same reason. -/
theorem parse_of_tokenize_eq_error
    {limits : Limits} {err : SyntaxError} (htokens : tokenize limits query = .error err) :
    parse limits query = .error err := by
  unfold tokenize at htokens
  unfold parse read
  cases hlex : lex limits query with
  | ok tokens =>
      rw [hlex] at htokens
      cases htokens
  | error located =>
      rw [hlex] at htokens
      injection htokens with herr
      simp only [Except.mapError, herr]

/-- No syntax error is worded as a name that is not known. -/
theorem display_unknownField_ne
    (name : String) (err : SyntaxError) :
    (EngineError.unknownField name).display ≠ err.display := by
  have hhead : ∀ a b : String, "unknown field: " ++ a ≠ "query syntax error: " ++ b := by
    intro a b htext
    have hcharacters := congrArg String.toList htext
    simp only [String.toList_append] at hcharacters
    exact absurd (List.cons.inj hcharacters).1 (by decide)
  obtain ⟨rest, hrest⟩ : ∃ rest, err.display = "query syntax error: " ++ rest := by
    unfold SyntaxError.display
    simp only [String.append_assoc]
    exact ⟨_, rfl⟩
  rw [hrest]
  exact hhead name rest

/-- Where the query cannot be read, compiling it fails in the words of that error. -/
theorem fails_compile_iff_of_parse_error
    (hconfig : s.config = .ok c) {err : SyntaxError} (hparse : parse c.limits query = .error err)
    {asJson passThrough keepRanges : Bool} :
    (s.outcome n (.compile query asJson passThrough keepRanges)).Fails message ↔
      err.display = message := by
  have hrun :
      (Command.compileEngine c passThrough keepRanges).run c.aliasTable.resolver query =
        .error (.malformedQuery err) := run_eq_error_malformedQuery_iff.2 hparse
  rw [fails_compile_iff hconfig, hrun]
  constructor
  · rintro ⟨err', herr, hdisplay⟩
    cases herr
    exact hdisplay
  · intro hdisplay
    exact ⟨_, rfl, hdisplay⟩

/--
Where the query was read, compiling it fails with the first name that is not known, if
neither the flag nor the configuration lets such names through.
-/
theorem fails_compile_iff_of_parse_ok
    (hconfig : s.config = .ok c) {e : Expr} (hparse : parse c.limits query = .ok e)
    {asJson passThrough keepRanges : Bool} :
    (s.outcome n (.compile query asJson passThrough keepRanges)).Fails message ↔
      passThrough = false ∧ c.options.unknownFields = .reject ∧
        ∃ name, e.fieldNames.find? (fun name => (c.aliasTable.resolver name).isNone) = some name ∧
          message = "unknown field: " ++ name := by
  let engine := Command.compileEngine c passThrough keepRanges
  have hread : parse engine.limits query = .ok e := hparse
  have hfull : e.nodes.find? Node.isEmpty = none := by
    rw [← Option.map_eq_none_iff, ← Expr.gap?_eq_find?]
    exact (Expr.readable_of_parse hparse).saturated
  have hrejects :
      engine.options.unknownFields = .reject ↔
        passThrough = false ∧ c.options.unknownFields = .reject := by
    cases passThrough <;> simp [engine, Command.compileEngine]
  have hunknown : ∀ name,
      engine.run c.aliasTable.resolver query = .error (.unknownField name) ↔
        (passThrough = false ∧ c.options.unknownFields = .reject) ∧
          e.fieldNames.find? (fun name => (c.aliasTable.resolver name).isNone) = some name := by
    intro name
    rw [(run_of_parse _ hread).2 name, Expr.compile_eq_error_unknownField_iff, hrejects]
    simp only [hfull, true_and]
  rw [fails_compile_iff hconfig]
  constructor
  · rintro ⟨err, hrun, rfl⟩
    cases err with
    | malformedQuery err =>
        rw [run_eq_error_malformedQuery_iff] at hrun
        cases hrun.symm.trans hread
    | unknownField name =>
        obtain ⟨⟨hflag, hpolicy⟩, hfirst⟩ := (hunknown name).1 hrun
        exact ⟨hflag, hpolicy, name, hfirst, rfl⟩
  · rintro ⟨hflag, hpolicy, name, hfirst, rfl⟩
    exact ⟨.unknownField name, (hunknown name).2 ⟨⟨hflag, hpolicy⟩, hfirst⟩, rfl⟩

/-- The failures of a compilation do not depend on what it prints or merges. -/
theorem fails_compile_iff_fails_compile
    (hconfig : s.config = .ok c) {n' : Nat}
    {asJson asJson' passThrough keepRanges keepRanges' : Bool} :
    (s.outcome n (.compile query asJson passThrough keepRanges)).Fails message ↔
      (s.outcome n' (.compile query asJson' passThrough keepRanges')).Fails message := by
  cases hparse : parse c.limits query with
  | error err =>
      rw [fails_compile_iff_of_parse_error hconfig hparse,
        fails_compile_iff_of_parse_error hconfig hparse]
  | ok e =>
      rw [fails_compile_iff_of_parse_ok hconfig hparse,
        fails_compile_iff_of_parse_ok hconfig hparse]

/-- Showing an expression fails exactly where compiling fails with a syntax error. -/
theorem fails_parse_iff_fails_compile
    (hconfig : s.config = .ok c) {view : ParseView} (hview : view.isOfTokens = false) {n' : Nat}
    {asJson passThrough keepRanges : Bool} :
    (s.outcome n (.parse query view)).Fails message ↔
      (s.outcome n' (.compile query asJson passThrough keepRanges)).Fails message ∧
        ∃ err : SyntaxError, err.display = message := by
  rw [fails_parse_iff hconfig hview]
  cases hparse : parse c.limits query with
  | error err =>
      rw [fails_compile_iff_of_parse_error hconfig hparse]
      constructor
      · rintro ⟨err', herr, hdisplay⟩
        cases herr
        exact ⟨hdisplay, err, hdisplay⟩
      · rintro ⟨hdisplay, _⟩
        exact ⟨err, rfl, hdisplay⟩
  | ok e =>
      rw [fails_compile_iff_of_parse_ok hconfig hparse]
      constructor
      · rintro ⟨err, herr, _⟩
        cases herr
      · rintro ⟨⟨_, _, name, _, hname⟩, err, hdisplay⟩
        exact absurd (hname.symm.trans hdisplay.symm) (display_unknownField_ne name err)

end Failures

/--
**The commands agree with one another.**  Without a configuration all of them fail in the
same words.  With one, whatever stops the tokens of a query from being shown stops its
expression from being shown and its predicate from being compiled, and in the same
words; its expression cannot be shown exactly if compiling fails with a syntax error,
again in the same words and whatever the flags are.  Where its expression can be shown,
compiling fails with the first name that is not known and with nothing else, and not at
all if such names are let through.  Keeping ranges apart never changes whether compiling
succeeds.  Every run either has one error, exit status 1 and no output, or no error and
exit status 0.
-/
theorem commands_agree
    (s : Surroundings) :
    (∀ err, s.config = .error err →
      ∀ n command,
        (s.outcome n command).Fails
          ("failed to load configuration: " ++ err.message s.remarks)) ∧
    (∀ c, s.config = .ok c → ∀ query,
      (∀ view message n, view.isOfTokens = true →
        (s.outcome n (.parse query view)).Fails message →
        (∀ view' n', (s.outcome n' (.parse query view')).Fails message) ∧
        ∀ n' asJson passThrough keepRanges,
          (s.outcome n' (.compile query asJson passThrough keepRanges)).Fails message) ∧
      (∀ view message n n' asJson passThrough keepRanges, view.isOfTokens = false →
        ((s.outcome n (.parse query view)).Fails message ↔
          (s.outcome n' (.compile query asJson passThrough keepRanges)).Fails message ∧
            ∃ err : SyntaxError, err.display = message)) ∧
      (∀ view n, view.isOfTokens = false → (s.outcome n (.parse query view)).Succeeds →
        ∃ e, parse c.limits query = .ok e ∧ ∀ n' asJson keepRanges,
          (s.outcome n' (.compile query asJson true keepRanges)).Succeeds ∧
          ∀ passThrough message,
            (s.outcome n' (.compile query asJson passThrough keepRanges)).Fails message ↔
              passThrough = false ∧ c.options.unknownFields = .reject ∧
                ∃ name,
                  e.fieldNames.find? (fun name => (c.aliasTable.resolver name).isNone) =
                    some name ∧
                  message = "unknown field: " ++ name) ∧
      (∀ n n' asJson asJson' passThrough keepRanges keepRanges',
        (s.outcome n (.compile query asJson passThrough keepRanges)).Succeeds ↔
          (s.outcome n' (.compile query asJson' passThrough keepRanges')).Succeeds)) ∧
    (∀ n command,
      (s.outcome n command).Succeeds ∨ ∃ message, (s.outcome n command).Fails message) := by
  refine ⟨fun err herr n command => fails_of_config_error herr,
    fun c hconfig query => ⟨?_, ?_, ?_, ?_⟩,
    fun n command => (s.outcome_ends n command).succeeds_or_fails⟩
  · intro view message n hview hfails
    obtain ⟨err, htokens, hdisplay⟩ := (fails_tokens_iff hconfig hview).1 hfails
    have hparse := parse_of_tokenize_eq_error htokens
    refine ⟨fun view' n' => ?_, fun n' asJson passThrough keepRanges => ?_⟩
    · cases hview' : view'.isOfTokens with
      | false =>
          exact (fails_parse_iff hconfig hview').2 ⟨err, hparse, hdisplay⟩
      | true =>
          exact (fails_tokens_iff hconfig hview').2 ⟨err, htokens, hdisplay⟩
    · exact (fails_compile_iff_of_parse_error hconfig hparse).2 hdisplay
  · intro view message n n' asJson passThrough keepRanges hview
    exact fails_parse_iff_fails_compile hconfig hview
  · intro view n hview hsucceeds
    rw [(s.outcome_ends _ _).succeeds_iff_forall_not_fails] at hsucceeds
    cases hparse : parse c.limits query with
    | error err =>
        exact absurd ((fails_parse_iff hconfig hview).2 ⟨err, hparse, rfl⟩) (hsucceeds _)
    | ok e =>
        refine ⟨e, rfl, fun n' asJson keepRanges => ⟨?_, fun passThrough message => ?_⟩⟩
        · rw [(s.outcome_ends _ _).succeeds_iff_forall_not_fails]
          intro message hfails
          rw [fails_compile_iff_of_parse_ok hconfig hparse] at hfails
          cases hfails.1
        · exact fails_compile_iff_of_parse_ok hconfig hparse
  · intro n n' asJson asJson' passThrough keepRanges keepRanges'
    rw [(s.outcome_ends _ _).succeeds_iff_forall_not_fails,
      (s.outcome_ends _ _).succeeds_iff_forall_not_fails]
    exact forall_congr' fun message => not_congr (fails_compile_iff_fails_compile hconfig)

/-- A query with a name that is not known is shown, but compiles only if such names may pass. -/
theorem commands_agree_unknown_name :
    ∃ (s : Surroundings) (c : Config),
      s.config = .ok c ∧
      (s.outcome 0 (.parse "exists|hue" .tree)).Succeeds ∧
      (s.outcome 0 (.compile "exists|hue" false true false)).Succeeds ∧
      (s.outcome 0 (.compile "exists|hue" false false true)).Fails "unknown field: hue" := by
  let layer : Layer := { fields := some (.ofList [("state", ["s"])]) }
  let files : Files := ⟨fun _ => true, fun _ => .ok "[fields]\nstate = \"s\"\n"⟩
  let s : Surroundings := ⟨files, "/h", "/w", some "/c", .none⟩
  have hconfig : s.config = .ok (Config.ofLayers [("/c", layer)]) := by
    cbv
  have hparse :
      parse (Config.ofLayers [("/c", layer)]).limits "exists|hue" =
        .ok (.presence .present (.literal (.bare "hue"))) := by
    cbv
  have hshown : (s.outcome 0 (.parse "exists|hue" .tree)).Succeeds := by
    rw [(s.outcome_ends _ _).succeeds_iff_forall_not_fails]
    intro message hfails
    obtain ⟨err, herr, _⟩ := (fails_parse_iff hconfig rfl).1 hfails
    cases hparse.symm.trans herr
  obtain ⟨_, _, hagree, _⟩ := (commands_agree s).2.1 _ hconfig "exists|hue"
  obtain ⟨e, hread, hcompiled⟩ := hagree .tree 0 rfl hshown
  obtain rfl := Except.ok.inj (hparse.symm.trans hread)
  refine ⟨s, _, hconfig, hshown, (hcompiled 0 false false).1, ?_⟩
  exact ((hcompiled 0 false true).2 false _).2 ⟨rfl, by decide, "hue", by decide, rfl⟩

end FieldQuery
