import LazyLisp.Command.Arguments
import LazyLisp.Command.FileTree
import LazyLisp.Program

/-!
# The command

The command runs the program in a file. Its settings come from environment
variables, over which the switches of the command line have precedence; the log
level is checked before the file is read. All that can go wrong with a program
is reported as one line on standard error. What ends the command without such a
line is a `Crash`: the digit limit, a file that is no text, a path that no
system can look for, and a switch that was given nothing.

* `Command.run`: the outcome of the command for its arguments, variables and
  files;
* `Outcome.errorText`: what is written on standard error.
-/

namespace LazyLisp

/-- A piece of what goes to standard error. -/
inductive Notice
  /-- A log line. -/
  | log (event : Event)
  /-- A text as it stands. -/
  | text (text : String)
  deriving Repr

namespace Notice

/-- The notice as it is written, log lines with a time stamp in front. -/
def write (stamp : String) : Notice → String
  | log event =>
    stamp ++ " - " ++ event.component ++ " - " ++ event.level.title ++ " - "
      ++ event.message ++ "\n"
  | text t => t

/-- The one line that reports an error. -/
def error (message : String) : Notice := text ("error: " ++ message ++ "\n")

end Notice

/-- The ways in which the command breaks off. -/
inductive Crash
  /-- The digit limit was exceeded. -/
  | digits (cause : DigitLimitError)
  /-- The file is not valid UTF-8. -/
  | notText
  /-- The path holds a null character. -/
  | nullInPath
  /-- The indent was given, but nothing as its value. -/
  | noIndent
  /-- The log level was given, but nothing as its value. -/
  | noLogLevel
  deriving DecidableEq, Repr

namespace Crash

/-- The kind of error that a crash is reported as. -/
def kind : Crash → String
  | digits _ | nullInPath => "ValueError"
  | notText => "UnicodeDecodeError"
  | noIndent => "TypeError"
  | noLogLevel => "AttributeError"

/-- The text of the error, if it has one that depends on nothing else. -/
def message? : Crash → Option String
  | digits cause => some cause.message
  | notText => none
  | nullInPath => some "embedded null byte"
  | noIndent => some "expected string or bytes-like object, got 'list'"
  | noLogLevel => some "'list' object has no attribute 'upper'"

end Crash

/-- How the command ends. -/
inductive Ending
  /-- After a run, with this exit code. -/
  | done (code : Nat)
  /-- While the arguments were looked at, with this exit code. -/
  | refused (code : Nat)
  | crashed (cause : Crash)
  deriving DecidableEq, Repr

/-- What the command does. -/
structure Outcome where
  ending : Ending
  /-- What goes to standard output. -/
  output : String
  /-- What goes to standard error. -/
  notices : List Notice
  deriving Repr

/-- What is written on standard error, with the time stamp of the log lines. -/
def Outcome.errorText (outcome : Outcome) (stamp : String) : String :=
  String.join (outcome.notices.map (Notice.write stamp))

/-- Line ends of all kinds become line breaks: a carriage return, and the line
    break after it if there is one, is a single one. -/
def unifyNewlines : List Char → List Char
  | [] => []
  | [c] => [if c == '\r' then '\n' else c]
  | c :: d :: cs =>
    if c == '\r' then
      if d == '\n' then '\n' :: unifyNewlines cs else '\n' :: unifyNewlines (d :: cs)
    else c :: unifyNewlines (d :: cs)

/-- The text in a file. -/
def decodeText (content : ByteArray) : Option String :=
  (String.fromUTF8? content).map fun text => String.ofList (unifyNewlines text.toList)

/-- A setting after a switch: what `read` makes of the text given to it, and the
    setting `base` before if the switch is not there. -/
def Given.override (base : String) (read : String → String) (crash : Crash) :
    Option Given → Except Crash String
  | none => .ok base
  | some (.text value) => .ok (read value)
  | some .nothing => .error crash

namespace Options

/-- The settings, changed as the options ask for. The indent is looked at
    first. -/
def settings (options : Options) (base : Settings) : Except Crash Settings := do
  let indent ← Given.override base.style.indent decodeEscapes .noIndent options.indent
  let logLevel ← Given.override base.logLevel upperCase .noLogLevel options.logLevel
  return {
    style := { indent, color := base.style.color || options.color }
    logLevel
    showTokens := base.showTokens && !options.quiet
    showTree := base.showTree && !options.quiet }

end Options

namespace Failure

/-- What the command makes of a failure: a line on standard error, or a crash. -/
def report : Failure → Except Crash Notice
  | reading (.parse cause) => .ok (.error cause.message)
  | running (.error cause) => .ok (.error cause.message)
  | reading .tooDeep | running .tooDeep => .ok (.error "maximum nesting depth exceeded")
  | reading (.digits cause) | running (.digits cause) | printing cause => .error (.digits cause)

end Failure

namespace Command

/-- Runs the program in a file of the given content. -/
def runContent (file : String) (settings : Settings) (level : Level) (content : ByteArray)
    (limits : Limits) : Outcome :=
  match decodeText content with
  | none => ⟨.crashed .notText, "", []⟩
  | some source =>
    let transcript := Transcript.ofSource settings source limits
    let log := ((Event.running file :: transcript.events).filter (·.shownAt level)).map .log
    match transcript.values with
    | .ok _ => ⟨.done 0, transcript.output, log⟩
    | .error failure =>
      match failure.report with
      | .ok notice => ⟨.done 1, transcript.output, log ++ [notice]⟩
      | .error crash => ⟨.crashed crash, transcript.output, log⟩

/-- Runs the command with the options it was given. -/
def runOptions (options : Options) (vars : String → Option String)
    (read : String → Except FileError ByteArray) (limits : Limits) : Outcome :=
  match options.settings (Settings.ofVariables vars) with
  | .error crash => ⟨.crashed crash, "", []⟩
  | .ok settings =>
    match Level.ofName? settings.logLevel with
    | none => ⟨.done 1, "", [.error (Level.invalidMessage settings.logLevel)]⟩
    | some level =>
      if options.file.toList.contains '\x00' then ⟨.crashed .nullInPath, "", []⟩
      else
        match read options.file with
        | .error cause =>
          ⟨.done 1, "", [.error ("cannot read " ++ options.file ++ ": " ++ cause.message)]⟩
        | .ok content => runContent options.file settings level content limits

/-- Runs the command. -/
def run (arguments : List String) (vars : String → Option String)
    (read : String → Except FileError ByteArray) (limits : Limits := {}) : Outcome :=
  match Options.ofArguments arguments with
  | .error .help => ⟨.refused 0, helpText, []⟩
  | .error (.usage cause) =>
    ⟨.refused 2, "", [.text (usageText ++ "minilisp: error: " ++ cause.message ++ "\n")]⟩
  | .ok options => runOptions options vars read limits

end Command

end LazyLisp
