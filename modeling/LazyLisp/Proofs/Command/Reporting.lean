import LazyLisp.Command
import LazyLisp.Proofs.Evaluation.Values
import LazyLisp.Proofs.Program.Transcript
import LazyLisp.Proofs.Reading.Failure

/-!
# What the command reports

A command whose arguments are in order ends in one of three ways (`run_reports`):

* it *succeeds*: the program in the file is read, evaluated and printed, and the exit code
  is 0;
* it *fails* for a cause that is reported, as one line after the log lines, and the exit
  code is 1;
* an error *escapes*: the command breaks off without a report.

Whichever it is, there is nothing on standard error but the log lines and this report.

For each of them it is said when this happens, in terms of what the command does before:
the settings, the file, its text, and the evaluation of this text. What escapes are the
failures that nothing looks out for. A switch may be given nothing, a path may hold a null
character and a file may be no text; and the digit limit may be exceeded, by a numeral in
the program, by a value that an error quotes, or by a result.
-/

namespace LazyLisp

/-! ## Runs of a source text -/

/-- Expressions stop, one after the other, only for want of depth or with an error. -/
theorem Execution.due_ofExprs (functions : FunctionTable) (depth : Nat) (es : List Expr) :
    Due (fun _ => True) (ofExprs functions depth es).values := by
  induction es with
  | nil => exact .ok trivial
  | cons e es ih =>
    have he : Due _ (evaluateIn functions depth [] e).1 :=
      evaluate_yields_value functions depth e _ _
    rw [ofExprs]
    generalize (evaluateIn functions depth [] e).1 = r at he ⊢
    cases he with
    | ok _ => exact ih.map fun _ _ => trivial
    | tooDeep => exact .tooDeep
    | raise cause => exact .raise cause

section Source

variable {source : String} {limits : Limits}

/-- A source text without values was not read, or its evaluation stopped. -/
theorem evalSource_eq_error {failure : Failure} (h : evalSource source limits = .error failure) :
    (∃ cause, readSource source limits.reading = .error cause ∧ failure = .reading cause) ∨
      ∃ program stop, readSource source limits.reading = .ok program ∧
        (Execution.ofProgram program limits.evaluation).values = .error stop ∧
          failure = .running stop := by
  cases hread : readSource source limits.reading with
  | error cause =>
    rw [evalSource_of_unread hread] at h
    cases h
    exact .inl ⟨cause, rfl, rfl⟩
  | ok program =>
    rw [evalSource_of_read hread] at h
    cases hvalues : (Execution.ofProgram program limits.evaluation).values with
    | error stop =>
      rw [hvalues] at h
      cases h
      exact .inr ⟨program, stop, rfl, hvalues, rfl⟩
    | ok values =>
      rw [hvalues] at h
      cases h

theorem evalSource_eq_ok {values : List Expr} (h : evalSource source limits = .ok values) :
    ∃ program, readSource source limits.reading = .ok program ∧
      (Execution.ofProgram program limits.evaluation).values = .ok values := by
  cases hread : readSource source limits.reading with
  | error cause =>
    rw [evalSource_of_unread hread] at h
    cases h
  | ok program =>
    rw [evalSource_of_read hread] at h
    exact ⟨program, rfl, mapError_eq_ok h⟩

variable (settings : Settings)

/-- What a run fails with before anything is printed of the results. -/
theorem values_ofSource_of_error {failure : Failure}
    (h : evalSource source limits = .error failure) :
    (Transcript.ofSource settings source limits).values = .error failure := by
  rcases evalSource_eq_error h with ⟨cause, hread, rfl⟩ | ⟨program, stop, hread, hstop, rfl⟩
  · exact (Transcript.ofSource_of_unread settings hread).1
  · exact (Transcript.ofSource_of_stopped settings hread hstop).1

theorem values_ofSource_of_ok {values : List Expr} (h : evalSource source limits = .ok values)
    (hwritable : ∀ v ∈ values, v.writable = true) :
    (Transcript.ofSource settings source limits).values = .ok values := by
  obtain ⟨program, hread, hvalues⟩ := evalSource_eq_ok h
  exact (Transcript.ofSource_of_values settings hread hvalues hwritable).1

theorem values_ofSource_of_not_writable {values : List Expr} {v : Expr}
    (h : evalSource source limits = .ok values) (hv : v ∈ values)
    (hwritable : v.writable = false) :
    (Transcript.ofSource settings source limits).values = .error (.printing .writing) := by
  obtain ⟨program, hread, hvalues⟩ := evalSource_eq_ok h
  exact Transcript.ofSource_of_not_writable settings hread hvalues hv hwritable

end Source

/-- Settings are missing exactly if a switch is given nothing. -/
theorem Options.settings_eq_error_iff {options : Options} {base : Settings} {cause : Crash} :
    options.settings base = .error cause ↔
      options.indent = some .nothing ∧ cause = .noIndent ∨
        options.indent ≠ some .nothing ∧ options.logLevel = some .nothing ∧
          cause = .noLogLevel := by
  rcases options with ⟨file, _ | _ | _, _ | _ | _, quiet, color⟩ <;>
    simp [settings, Given.override, bind, Except.bind, pure, Except.pure, eq_comm]

/-! ## Standard error -/

/-- The command ends with exit code 1, and its last words on standard error, after log lines
    only, are the message. -/
def Outcome.Reports (outcome : Outcome) (message : String) : Prop :=
  outcome.ending = .done 1 ∧ ∃ events : List Event,
    outcome.notices = events.map .log ++ [.text ("error: " ++ message ++ "\n")]

theorem Outcome.Reports.unique {outcome : Outcome} {m n : String} (hm : outcome.Reports m)
    (hn : outcome.Reports n) : m = n := by
  obtain ⟨-, events, hm⟩ := hm
  obtain ⟨-, events', hn⟩ := hn
  have hlast := (List.append_inj' (hm.symm.trans hn) rfl).2
  simpa using hlast

/-- The command ends like this, with nothing but log lines on standard error. -/
def Outcome.Ends (outcome : Outcome) (ending : Ending) : Prop :=
  outcome.ending = ending ∧ ∃ events : List Event, outcome.notices = events.map .log

/-- The line of an event in the log. -/
def Event.logLine (stamp : String) (event : Event) : String :=
  String.intercalate " - " [stamp, event.component, event.level.title, event.message] ++ "\n"

/-- The lines of events in the log. -/
def logText (stamp : String) (events : List Event) : String :=
  String.join (events.map (Event.logLine stamp))

theorem Notice.write_log (stamp : String) (event : Event) :
    (Notice.log event).write stamp = event.logLine stamp := by
  simp [Notice.write, Event.logLine, String.append_assoc]

theorem join_write_log (stamp : String) (events : List Event) :
    String.join ((events.map Notice.log).map (Notice.write stamp)) = logText stamp events := by
  rw [List.map_map, logText]
  exact congrArg String.join (List.map_congr_left fun event _ => Notice.write_log stamp event)

theorem Outcome.Ends.errorText {outcome : Outcome} {ending : Ending} (h : outcome.Ends ending) :
    ∃ events, ∀ stamp, outcome.errorText stamp = logText stamp events := by
  obtain ⟨-, events, hnotices⟩ := h
  refine ⟨events, fun stamp => ?_⟩
  rw [Outcome.errorText, hnotices, join_write_log]

theorem Outcome.Reports.errorText {outcome : Outcome} {message : String}
    (h : outcome.Reports message) : ∃ events, ∀ stamp,
      outcome.errorText stamp = logText stamp events ++ ("error: " ++ message ++ "\n") := by
  obtain ⟨-, events, hnotices⟩ := h
  refine ⟨events, fun stamp => ?_⟩
  rw [Outcome.errorText, hnotices, List.map_append, String.join_append, join_write_log,
    List.map_singleton, String.join_cons, String.join_nil, String.append_empty, Notice.write]

namespace Command

/-! ## Verdicts -/

section Verdicts

variable (options : Options) (vars : String → Option String)
  (read : String → Except FileError ByteArray) (limits : Limits)

/-- The switches are given what they need, and the log level has a name. -/
def Ready : Prop :=
  ∃ settings level, options.settings (Settings.ofVariables vars) = .ok settings ∧
    Level.ofName? settings.logLevel = some level

/-- The command comes to read the file, which has this content. -/
structure Opens (content : ByteArray) : Prop where
  ready : Ready options vars
  path : '\x00' ∉ options.file.toList
  read_eq : read options.file = .ok content

/-- The file holds this text. -/
def Loads (source : String) : Prop :=
  ∃ content, Opens options vars read content ∧ decodeText content = some source

/-- The program in the file has values, and all of them can be printed. -/
def Succeeds : Prop :=
  ∃ source values, Loads options vars read source ∧ evalSource source limits = .ok values ∧
    ∀ v ∈ values, v.writable = true

/-- The failures that are reported, each with its message. -/
inductive Fails : String → Prop
  /-- No log level has the name. -/
  | level {settings : Settings} : options.settings (Settings.ofVariables vars) = .ok settings →
    Level.ofName? settings.logLevel = none → Fails (Level.invalidMessage settings.logLevel)
  /-- The file cannot be read. -/
  | file {cause : FileError} : Ready options vars → '\x00' ∉ options.file.toList →
    read options.file = .error cause →
    Fails ("cannot read " ++ options.file ++ ": " ++ cause.message)
  /-- The text is no program. -/
  | reading {source : String} {cause : ParseError} : Loads options vars read source →
    evalSource source limits = .error (.reading (.parse cause)) → Fails cause.message
  /-- An expression has no value, and the error can be written. -/
  | running {source : String} {cause : EvalError} : Loads options vars read source →
    evalSource source limits = .error (.running (raise cause)) → cause.writable = true →
    Fails cause.message
  /-- The program, or its evaluation, is nested too deep. -/
  | nesting {source : String} : Loads options vars read source →
    evalSource source limits = .error (.reading .tooDeep) ∨
      evalSource source limits = .error (.running .tooDeep) →
    Fails "maximum nesting depth exceeded"

/-- The failures that are not reported, each with what the command breaks off for. -/
inductive Escapes : Crash → Prop
  /-- The indent is given nothing. -/
  | indent : options.indent = some .nothing → Escapes .noIndent
  /-- The log level is given nothing. The indent is looked at first. -/
  | logLevel : options.indent ≠ some .nothing → options.logLevel = some .nothing →
    Escapes .noLogLevel
  /-- The path holds a null character. -/
  | path : Ready options vars → '\x00' ∈ options.file.toList → Escapes .nullInPath
  /-- The file is no text. -/
  | encoding {content : ByteArray} : Opens options vars read content →
    decodeText content = none → Escapes .notText
  /-- A numeral of the program exceeds the digit limit. -/
  | numeral {source : String} {t : Token} {limit : DigitLimitError} :
    Loads options vars read source → t ∈ tokenize source → readNumeral t = .error limit →
    evalSource source limits = .error (.reading (.digits limit)) → Escapes (.digits limit)
  /-- An expression has no value, and the error quotes an integer that exceeds the limit. -/
  | message {source : String} {cause : EvalError} : Loads options vars read source →
    evalSource source limits = .error (.running (raise cause)) → cause.writable = false →
    Escapes (.digits .writing)
  /-- There is an integer that exceeds the limit in one of the results. -/
  | result {source : String} {values : List Expr} {v : Expr} : Loads options vars read source →
    evalSource source limits = .ok values → v ∈ values → v.writable = false →
    Escapes (.digits .writing)

end Verdicts

variable {options : Options} {vars : String → Option String}
  {read : String → Except FileError ByteArray} {limits : Limits}

/-! ## There is a verdict -/

theorem verdict_of_loads {source : String} (h : Loads options vars read source) :
    Succeeds options vars read limits ∨ (∃ message, Fails options vars read limits message) ∨
      ∃ cause, Escapes options vars read limits cause := by
  cases heval : evalSource source limits with
  | ok values =>
    by_cases hwritable : ∀ v ∈ values, v.writable = true
    · exact .inl ⟨source, values, h, heval, hwritable⟩
    · push Not at hwritable
      obtain ⟨v, hv, hwritable⟩ := hwritable
      exact .inr (.inr ⟨_, .result h heval hv (Bool.eq_false_of_not_eq_true hwritable)⟩)
  | error failure =>
    rcases evalSource_eq_error heval with ⟨cause, hread, rfl⟩ | ⟨program, stop, -, hstop, rfl⟩
    · cases cause with
      | parse cause => exact .inr (.inl ⟨_, .reading h heval⟩)
      | tooDeep => exact .inr (.inl ⟨_, .nesting h (.inl heval)⟩)
      | digits limit =>
        obtain ⟨t, ht, hlimit⟩ := failsOnly_readSequence _ _ _ hread
        exact .inr (.inr ⟨_, .numeral h ht hlimit heval⟩)
    · have hdue : Due _ (Execution.ofProgram program limits.evaluation).values :=
        Execution.due_ofExprs _ _ _
      rw [hstop] at hdue
      cases hdue with
      | tooDeep => exact .inr (.inl ⟨_, .nesting h (.inr heval)⟩)
      | raise cause =>
        cases hwritable : cause.writable with
        | true => exact .inr (.inl ⟨_, .running h heval hwritable⟩)
        | false => exact .inr (.inr ⟨_, .message h heval hwritable⟩)

variable (options vars read limits) in
/-- Every command succeeds, fails, or has an error escape. -/
theorem verdict : Succeeds options vars read limits ∨
    (∃ message, Fails options vars read limits message) ∨
      ∃ cause, Escapes options vars read limits cause := by
  cases hsettings : options.settings (Settings.ofVariables vars) with
  | error cause =>
    rcases Options.settings_eq_error_iff.1 hsettings with ⟨hindent, -⟩ | ⟨hindent, hlevel, -⟩
    · exact .inr (.inr ⟨_, .indent hindent⟩)
    · exact .inr (.inr ⟨_, .logLevel hindent hlevel⟩)
  | ok settings =>
    cases hlevel : Level.ofName? settings.logLevel with
    | none => exact .inr (.inl ⟨_, .level hsettings hlevel⟩)
    | some level =>
      have hready : Ready options vars := ⟨settings, level, hsettings, hlevel⟩
      by_cases hpath : '\x00' ∈ options.file.toList
      · exact .inr (.inr ⟨_, .path hready hpath⟩)
      · cases hread : read options.file with
        | error cause => exact .inr (.inl ⟨_, .file hready hpath hread⟩)
        | ok content =>
          have hopens : Opens options vars read content := ⟨hready, hpath, hread⟩
          cases htext : decodeText content with
          | none => exact .inr (.inr ⟨_, .encoding hopens htext⟩)
          | some source => exact verdict_of_loads ⟨content, hopens, htext⟩

/-! ## What the verdicts entail -/

section Loads

variable {source : String} (h : Loads options vars read source)

include h

/-- A command that finds a program runs it. -/
theorem runOptions_of_loads (limits : Limits) : ∃ settings level content,
    decodeText content = some source ∧ runOptions options vars read limits =
      runContent options.file settings level content limits := by
  obtain ⟨content, ⟨⟨settings, level, hsettings, hlevel⟩, hpath, hread⟩, htext⟩ := h
  refine ⟨settings, level, content, htext, ?_⟩
  simp [runOptions, hsettings, hlevel, hpath, hread]

theorem ends_of_values {values : List Expr}
    (hvalues : ∀ settings, (Transcript.ofSource settings source limits).values = .ok values) :
    (runOptions options vars read limits).Ends (.done 0) := by
  obtain ⟨settings, level, content, htext, hrun⟩ := runOptions_of_loads h limits
  simp only [Outcome.Ends, hrun, runContent, htext, hvalues settings, true_and]
  exact ⟨_, rfl⟩

theorem reports_of_failure {failure : Failure} {message : String}
    (hfailure : ∀ settings, (Transcript.ofSource settings source limits).values = .error failure)
    (hreport : failure.report = .ok (.error message)) :
    (runOptions options vars read limits).Reports message := by
  obtain ⟨settings, level, content, htext, hrun⟩ := runOptions_of_loads h limits
  simp only [Outcome.Reports, hrun, runContent, htext, hfailure settings, hreport, true_and]
  exact ⟨_, rfl⟩

theorem ends_of_failure {failure : Failure} {cause : Crash}
    (hfailure : ∀ settings, (Transcript.ofSource settings source limits).values = .error failure)
    (hreport : failure.report = .error cause) :
    (runOptions options vars read limits).Ends (.crashed cause) := by
  obtain ⟨settings, level, content, htext, hrun⟩ := runOptions_of_loads h limits
  simp only [Outcome.Ends, hrun, runContent, htext, hfailure settings, hreport, true_and]
  exact ⟨_, rfl⟩

end Loads

theorem Succeeds.ends (h : Succeeds options vars read limits) :
    (runOptions options vars read limits).Ends (.done 0) := by
  obtain ⟨source, values, hloads, heval, hwritable⟩ := h
  exact ends_of_values hloads fun settings => values_ofSource_of_ok settings heval hwritable

theorem Fails.reports {message : String} (h : Fails options vars read limits message) :
    (runOptions options vars read limits).Reports message := by
  cases h with
  | level hsettings hlevel =>
    simp only [runOptions, hsettings, hlevel]
    exact ⟨rfl, [], rfl⟩
  | file hready hpath hread =>
    obtain ⟨settings, level, hsettings, hlevel⟩ := hready
    simp only [runOptions, hsettings, hlevel, hread]
    simp [hpath, Outcome.Reports, Notice.error]
  | reading hloads heval =>
    exact reports_of_failure hloads (fun settings => values_ofSource_of_error settings heval) rfl
  | running hloads heval hwritable =>
    refine reports_of_failure hloads (fun settings => values_ofSource_of_error settings heval) ?_
    rw [raise, if_pos hwritable, Failure.report]
  | nesting hloads heval =>
    rcases heval with heval | heval <;>
      exact reports_of_failure hloads (fun settings => values_ofSource_of_error settings heval) rfl

theorem Escapes.ends {cause : Crash} (h : Escapes options vars read limits cause) :
    (runOptions options vars read limits).Ends (.crashed cause) := by
  cases h with
  | indent hindent =>
    simp only [runOptions, Options.settings_eq_error_iff.2 (.inl ⟨hindent, rfl⟩)]
    exact ⟨rfl, [], rfl⟩
  | logLevel hindent hlevel =>
    simp only [runOptions, Options.settings_eq_error_iff.2 (.inr ⟨hindent, hlevel, rfl⟩)]
    exact ⟨rfl, [], rfl⟩
  | path hready hpath =>
    obtain ⟨settings, level, hsettings, hlevel⟩ := hready
    simp [runOptions, hsettings, hlevel, hpath, Outcome.Ends]
  | encoding hopens htext =>
    obtain ⟨⟨settings, level, hsettings, hlevel⟩, hpath, hread⟩ := hopens
    simp [runOptions, hsettings, hlevel, hpath, hread, runContent, htext, Outcome.Ends]
  | numeral hloads _ _ heval =>
    exact ends_of_failure hloads (fun settings => values_ofSource_of_error settings heval) rfl
  | message hloads heval hwritable =>
    refine ends_of_failure hloads (fun settings => values_ofSource_of_error settings heval) ?_
    rw [raise, if_neg (by simp [hwritable]), Failure.report]
  | result hloads heval hv hwritable =>
    exact ends_of_failure hloads
      (fun settings => values_ofSource_of_not_writable settings heval hv hwritable) rfl

/-- A command whose arguments are in order ends with exit code 0 if it succeeds, with exit
    code 1 and the message as its last line if it fails, and breaks off if an error
    escapes, in each case exactly then. On standard error there are log lines, whatever the
    time stamp in them is, and after them the message if it fails, but nothing more if not. -/
theorem run_reports {arguments : List String}
    (harguments : Options.ofArguments arguments = .ok options) (vars : String → Option String)
    (read : String → Except FileError ByteArray) (limits : Limits) :
    let outcome := run arguments vars read limits
    (Succeeds options vars read limits ∨ (∃ message, Fails options vars read limits message) ∨
        ∃ cause, Escapes options vars read limits cause) ∧
      (outcome.ending = .done 0 ↔ Succeeds options vars read limits) ∧
      (outcome.ending = .done 1 ↔ ∃ message, Fails options vars read limits message) ∧
      (∀ message, outcome.Reports message ↔ Fails options vars read limits message) ∧
      (∀ message, Fails options vars read limits message → ∃ events, ∀ stamp,
        outcome.errorText stamp = logText stamp events ++ ("error: " ++ message ++ "\n")) ∧
      ((∀ message, ¬Fails options vars read limits message) → ∃ events, ∀ stamp,
        outcome.errorText stamp = logText stamp events) ∧
      ∀ cause, outcome.ending = .crashed cause ↔ Escapes options vars read limits cause := by
  intro outcome
  have hrun : outcome = runOptions options vars read limits := by
    simp only [outcome, run, harguments]
  have hverdict := verdict options vars read limits
  rw [hrun]
  -- The ending tells which of the three verdicts it is.
  have hdone (h : (runOptions options vars read limits).ending = .done 1) :
      ∃ message, Fails options vars read limits message := by
    rcases hverdict with hsucceeds | hfails | ⟨cause, hescapes⟩
    · simp [hsucceeds.ends.1] at h
    · exact hfails
    · simp [hescapes.ends.1] at h
  refine ⟨hverdict, ⟨fun h => ?_, fun h => h.ends.1⟩, ⟨hdone, ?_⟩,
    fun message => ⟨fun h => ?_, Fails.reports⟩, fun message h => h.reports.errorText, fun h => ?_,
    fun cause => ⟨fun h => ?_, fun h => h.ends.1⟩⟩
  · rcases hverdict with hsucceeds | ⟨message, hfails⟩ | ⟨cause, hescapes⟩
    · exact hsucceeds
    · simp [hfails.reports.1] at h
    · simp [hescapes.ends.1] at h
  · rintro ⟨message, hfails⟩
    exact hfails.reports.1
  · obtain ⟨message', hfails⟩ := hdone h.1
    exact (h.unique hfails.reports).symm ▸ hfails
  · rcases hverdict with hsucceeds | ⟨message, hfails⟩ | ⟨cause, hescapes⟩
    · exact hsucceeds.ends.errorText
    · exact absurd hfails (h message)
    · exact hescapes.ends.errorText
  · rcases hverdict with hsucceeds | ⟨message, hfails⟩ | ⟨cause', hescapes⟩
    · simp [hsucceeds.ends.1] at h
    · simp [hfails.reports.1] at h
    · rw [hescapes.ends.1] at h
      cases h
      exact hescapes

/-- Without switches and variables, the log level is the default. -/
theorem ready_of_defaults (file : String) : Ready { file } fun _ => none := by
  have hsettings : Options.settings { file } (Settings.ofVariables fun _ => none) = .ok {} := by
    cbv
  exact ⟨{}, .warning, hsettings, by cbv⟩

/-- A reference to nothing, in a file with the line ends of another system. -/
theorem run_reports_unknownReference :
    let options : Options := { file := "p" }
    let vars : String → Option String := fun _ => none
    let read : String → Except FileError ByteArray := fun _ => .ok ⟨#[120, 13, 10]⟩
    let limits : Limits := ⟨9, 9⟩
    Options.ofArguments ["p"] = .ok options ∧
      Fails options vars read limits "unknown reference: x" ∧
      (run ["p"] vars read limits).ending = .done 1 ∧
      (run ["p"] vars read limits).Reports "unknown reference: x" ∧
      ∃ events, ∀ stamp, (run ["p"] vars read limits).errorText stamp =
        logText stamp events ++ "error: unknown reference: x\n" := by
  intro options vars read limits
  have harguments : Options.ofArguments ["p"] = .ok options := by cbv
  have htext : decodeText ⟨#[120, 13, 10]⟩ = some "x\n" := by cbv
  have heval : evalSource "x\n" limits = .error (.running (raise (.unknownReference "x"))) := by
    unfold limits
    cbv
  have hloads : Loads options vars read "x\n" :=
    ⟨_, ⟨ready_of_defaults "p", by decide, rfl⟩, htext⟩
  have hfails : Fails options vars read limits "unknown reference: x" := .running hloads heval rfl
  obtain ⟨-, -, hdone, hreports, htext, -⟩ := run_reports harguments vars read limits
  exact ⟨harguments, hfails, hdone.2 ⟨_, hfails⟩, (hreports _).2 hfails, htext _ hfails⟩

/-- A file of a single byte that is no text: there is no exit code. -/
theorem run_escapes_encoding :
    let read : String → Except FileError ByteArray := fun _ => .ok ⟨#[255]⟩
    let limits : Limits := ⟨9, 9⟩
    Options.ofArguments ["p"] = .ok { file := "p" } ∧
      (run ["p"] (fun _ => none) read limits).ending = .crashed .notText := by
  intro read limits
  have harguments : Options.ofArguments ["p"] = .ok { file := "p" } := by cbv
  have htext : decodeText ⟨#[255]⟩ = none := by cbv
  have hescapes : Escapes { file := "p" } (fun _ => none) read limits .notText :=
    .encoding ⟨ready_of_defaults "p", by decide, rfl⟩ htext
  refine ⟨harguments, ?_⟩
  rw [run, harguments]
  exact hescapes.ends.1

end Command

end LazyLisp
