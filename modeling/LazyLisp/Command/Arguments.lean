import LazyLisp.Text.DecimalDigit
import LazyLisp.Text.Quoted

/-!
# Arguments

The arguments of the command: one file, and switches before, after or around
it. A long switch may be cut short as long as it stays unambiguous, and may have
its value attached with an `=`; short switches may be run together behind one
hyphen; the argument `--` ends the switches, so that all arguments after it are
plain. It is never a value: a switch to which it is attached is set, but to
nothing (`Given.nothing`).

Arguments are first classified one by one (`Argument.classify`), and then taken
from left to right (`Arguments.take`). What is left over, plain arguments after
the file or unknown switches, is reported at the end, but after a missing file.

Two things are narrower here than for command lines in general. The conventions
are those of a single release of a common parser of arguments: in later ones the
`--` of `--indent=--` is a value like any other, and the `q` behind the `=` of
`-q=q` is refused, and not read as one more switch run together with the first.
And arguments are texts: bytes that are none, which a system may hand over as
lone surrogates, do not occur in them.
-/

namespace LazyLisp

/-! ### Switches -/

/-- The switches of the command. -/
inductive Switch
  | help
  | indent
  | logLevel
  | quiet
  | color
  deriving DecidableEq, Repr

namespace Switch

/-- The spellings of a switch. -/
def spellings : Switch → List String
  | help => ["-h", "--help"]
  | indent => ["--indent"]
  | logLevel => ["--log-level"]
  | quiet => ["--quiet", "-q"]
  | color => ["--color"]

/-- The switch needs a value. -/
def takesValue : Switch → Bool
  | indent | logLevel => true
  | help | quiet | color => false

/-- All switches, in the order in which candidates are listed. -/
def all : List Switch := [help, indent, logLevel, quiet, color]

/-- All spellings, each with its switch. -/
def table : List (String × Switch) :=
  all.flatMap fun s => s.spellings.map fun spelling => (spelling, s)

/-- The switch with this spelling. -/
def ofSpelling? (spelling : String) : Option Switch := table.lookup spelling

/-- The name of a switch in error messages. -/
def title (s : Switch) : String := "/".intercalate s.spellings

end Switch

/-- What is wrong with the arguments. -/
inductive UsageError
  /-- A shortened switch that may be several. -/
  | ambiguous (argument : String) (candidates : List String)
  /-- A switch without the value it needs. -/
  | missingValue (switch : Switch)
  /-- A switch with a value it does not take. -/
  | ignoredValue (switch : Switch) (value : String)
  /-- There is no file. -/
  | missingFile
  /-- Arguments are left over. -/
  | unrecognized (arguments : List String)
  deriving DecidableEq, Repr

namespace UsageError

/-- The text of the error. -/
def message : UsageError → String
  | ambiguous argument candidates =>
    "ambiguous option: " ++ argument ++ " could match " ++ ", ".intercalate candidates
  | missingValue s => "argument " ++ s.title ++ ": expected one argument"
  | ignoredValue s value =>
    "argument " ++ s.title ++ ": ignored explicit argument " ++ quoted value
  | missingFile => "the following arguments are required: file"
  | unrecognized arguments => "unrecognized arguments: " ++ " ".intercalate arguments

end UsageError

/-! ### Classification -/

/-- An argument by its form. -/
inductive Argument
  /-- A file, or the value of a switch. -/
  | plain (text : String)
  /-- The mark that ends the switches. -/
  | separator
  /-- A switch, and the value attached to it. -/
  | switch (switch : Switch) (spelling : String) (value : Option String)
  /-- What looks like a switch, but is none. -/
  | unknown (text : String)
  deriving DecidableEq, Repr

/-- The characters are decimal digits, and there is at least one. -/
def isDigits (cs : List Char) : Bool :=
  !cs.isEmpty && cs.all isDecimalDigit

/-- The characters without a line break at their end. -/
def dropFinalNewline : List Char → List Char
  | [] => []
  | ['\n'] => []
  | c :: cs => c :: dropFinalNewline cs

/-- The text after a hyphen makes it a negative number: digits, or a point with
    digits after it and perhaps before it. -/
def isNegativeNumber (afterHyphen : List Char) : Bool :=
  let cs := dropFinalNewline afterHyphen
  let whole := cs.takeWhile isDecimalDigit
  match cs.drop whole.length with
  | [] => !whole.isEmpty
  | c :: fraction => c == '.' && isDigits fraction

/-- Cuts an argument at its first `=`, if it has one. -/
def splitValue (cs : List Char) : List Char × Option (List Char) :=
  match cs.dropWhile (· != '=') with
  | [] => (cs, none)
  | _ :: value => (cs.takeWhile (· != '='), some value)

namespace Argument

/-- The switches that an argument, which is no full spelling, may stand for,
    each with its spelling and value: a long one cut short, or a short one with
    more behind it. -/
def candidates (cs : List Char) : List (String × Switch × Option String) :=
  match cs with
  | '-' :: '-' :: _ =>
    let (name, value) := splitValue cs
    (Switch.table.filter fun (spelling, _) => name.isPrefixOf spelling.toList).map
      fun (spelling, s) => (spelling, s, value.map String.ofList)
  | '-' :: c :: rest =>
    (Switch.table.filter fun (spelling, _) => spelling.toList == ['-', c]).map
      fun (spelling, s) => (spelling, s, some (String.ofList rest))
  | _ => []

/-- The switch in front of the first `=`, if it is spelled out there. -/
def withValue? (cs : List Char) : Option Argument :=
  match splitValue cs with
  | (_, none) => none
  | (name, some value) =>
    let spelling := String.ofList name
    (Switch.ofSpelling? spelling).map fun s => switch s spelling (some (String.ofList value))

/-- Classifies an argument before the separator. -/
def classify (text : String) : Except UsageError Argument :=
  match text.toList with
  | '-' :: c :: rest =>
    let cs := '-' :: c :: rest
    match Switch.ofSpelling? text with
    | some s => .ok (switch s text none)
    | none =>
      match withValue? cs with
      | some argument => .ok argument
      | none =>
        match candidates cs with
        | [(spelling, s, value)] => .ok (switch s spelling value)
        | [] =>
          if isNegativeNumber (c :: rest) || cs.contains ' ' then .ok (plain text)
          else .ok (unknown text)
        | several => .error (.ambiguous text (several.map (·.1)))
  | _ => .ok (plain text)

/-- Classifies the arguments, all of which are plain after the first `--`. -/
def classifyAll : List String → Except UsageError (List Argument)
  | [] => .ok []
  | text :: texts =>
    if text = "--" then .ok (separator :: texts.map plain)
    else do
      let argument ← classify text
      return argument :: (← classifyAll texts)

end Argument

/-! ### Options -/

/-- What a switch is given as its value. -/
inductive Given
  | text (value : String)
  /-- Only the separator stood there, which is no value. -/
  | nothing
  deriving DecidableEq, Repr

namespace Given

/-- What a switch is given by a text in the place of its value. -/
def ofText (value : String) : Given :=
  if value = "--" then nothing else text value

end Given

/-- What the arguments ask for. -/
structure Options where
  file : String
  indent : Option Given := none
  logLevel : Option Given := none
  quiet : Bool := false
  color : Bool := false
  deriving DecidableEq, Repr

/-- Why the arguments do not lead to a run. -/
inductive Refusal
  /-- They ask for help. -/
  | help
  /-- They are wrong. -/
  | usage (cause : UsageError)
  deriving DecidableEq, Repr

/-- What was found in the arguments so far. -/
structure Arguments where
  file : Option String := none
  indent : Option Given := none
  logLevel : Option Given := none
  quiet : Bool := false
  color : Bool := false
  /-- The arguments that found no use. -/
  extras : List String := []
  deriving DecidableEq, Repr

namespace Arguments

/-- Splits up short switches that are run together: `s`, then those that the
    characters behind it spell. Only the last may be left without its value. -/
def expandShort (s : Switch) : List Char → Except UsageError (List (Switch × Option String))
  | [] => .ok [(s, none)]
  | c :: cs =>
    match Switch.ofSpelling? (String.ofList ['-', c]) with
    | none => .error (.ignoredValue s (String.ofList (c :: cs)))
    | some next =>
      if next.takesValue && !cs.isEmpty then
        .ok [(s, none), (next, some (String.ofList cs))]
      else do return (s, none) :: (← expandShort next cs)

/-- The switches of one argument, each with the value attached to it. -/
def expand (s : Switch) (spelling : String) :
    Option String → Except UsageError (List (Switch × Option String))
  | none => .ok [(s, none)]
  | some value =>
    if s.takesValue then .ok [(s, some value)]
    else if spelling.toList.take 2 = ['-', '-'] || value = "" then .error (.ignoredValue s value)
    else expandShort s value.toList

/-- Sets a switch. The last of several settings counts. -/
def set (found : Arguments) (s : Switch) (value : Option String) : Except Refusal Arguments :=
  match s with
  | .help => .error .help
  | .indent => .ok { found with indent := value.map .ofText }
  | .logLevel => .ok { found with logLevel := value.map .ofText }
  | .quiet => .ok { found with quiet := true }
  | .color => .ok { found with color := true }

/-- Sets the switches of one argument, in order. -/
def setAll (found : Arguments) : List (Switch × Option String) → Except Refusal Arguments
  | [] => .ok found
  | (s, value) :: more => do setAll (← found.set s value) more

/-- Notes an argument that has no use. -/
def leave (found : Arguments) (text : String) : Arguments :=
  { found with extras := found.extras ++ [text] }

/-- The last of the switches still needs a value. -/
def wantsValue (switches : List (Switch × Option String)) : Option Switch :=
  match switches.getLast? with
  | some (s, none) => if s.takesValue then some s else none
  | _ => none

/-- Gives the value to the last of the switches. -/
def giveValue (switches : List (Switch × Option String)) (s : Switch) (value : String) :
    List (Switch × Option String) :=
  switches.dropLast ++ [(s, some value)]

/-- Takes the arguments from left to right. The first plain one is the file; a
    separator next to it, on either side, is taken with it. -/
def take (found : Arguments) : List Argument → Except Refusal Arguments
  | [] => .ok found
  | .separator :: rest =>
    match found.file, rest with
    | none, .plain text :: rest => take { found with file := some text } rest
    | _, rest => take (found.leave "--") rest
  | .plain text :: rest =>
    match found.file with
    | some _ => take (found.leave text) rest
    | none =>
      match rest with
      | .separator :: rest => take { found with file := some text } rest
      | rest => take { found with file := some text } rest
  | .unknown text :: rest => take (found.leave text) rest
  | .switch s spelling attached :: rest => do
    let switches ← (expand s spelling attached).mapError .usage
    match wantsValue switches with
    | none => take (← found.setAll switches) rest
    | some last =>
      match rest with
      | .plain value :: rest => take (← found.setAll (giveValue switches last value)) rest
      | _ => .error (.usage (.missingValue last))

/-- The options, if there is a file and nothing is left over. -/
def toOptions (found : Arguments) : Except Refusal Options :=
  match found.file with
  | none => .error (.usage .missingFile)
  | some file =>
    match found.extras with
    | [] =>
      .ok { file, indent := found.indent, logLevel := found.logLevel, quiet := found.quiet,
            color := found.color }
    | extras => .error (.usage (.unrecognized extras))

end Arguments

/-- The options that the arguments of the command ask for. -/
def Options.ofArguments (arguments : List String) : Except Refusal Options := do
  let classified ← (Argument.classifyAll arguments).mapError .usage
  let found ← Arguments.take {} classified
  found.toOptions

/-- How the command is used. -/
def usageText : String :=
  "usage: minilisp [-h] [--indent INDENT] [--log-level LOG_LEVEL] [--quiet]\n"
    ++ "                [--color]\n"
    ++ "                file\n"

/-- The help on the command. -/
def helpText : String :=
  usageText
    ++ "\n"
    ++ "Run a minilisp program file\n"
    ++ "\n"
    ++ "positional arguments:\n"
    ++ "  file                  Path to the program to run\n"
    ++ "\n"
    ++ "options:\n"
    ++ "  -h, --help            show this help message and exit\n"
    ++ "  --indent INDENT       Indent unit for tree output; \\t, \\s and similar\n"
    ++ "                        escapes are expanded (default: two spaces)\n"
    ++ "  --log-level LOG_LEVEL\n"
    ++ "                        Logging level (DEBUG, INFO, WARNING, ERROR)\n"
    ++ "  --quiet, -q           Only print evaluation results, not the tokens and\n"
    ++ "                        parse trees\n"
    ++ "  --color               Colour tree output with ANSI escapes\n"

end LazyLisp
