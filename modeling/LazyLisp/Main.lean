import Std.Time.Format
import LazyLisp.Command

/-!
# The executable

Collects what the command depends on (its arguments, the two environment
variables and the content of the file), and writes out what it does.
-/

namespace LazyLisp

/-- The cause of a failure of the system to read a file. -/
def FileError.ofSystem : IO.Error → FileError
  | .noFileOrDirectory _ _ _ => .missing
  | .inappropriateType _ code _ => if code = 21 then .isDirectory else .notDirectory
  | .permissionDenied _ _ _ => .other "Permission denied"
  | .invalidArgument _ _ _ => .tooLong
  | e => .other (toString e)

/-- The content of the file at a path. -/
def readContent (path : String) : IO (Except FileError ByteArray) := do
  try
    return .ok (← IO.FS.readBinFile (plainPath path))
  catch e =>
    return .error (.ofSystem e)

/-- The content of the file that the arguments name, if they name one. -/
def readNamed (arguments : List String) : IO (Except FileError ByteArray) :=
  match Options.ofArguments arguments with
  | .ok options => readContent options.file
  | .error _ => return .error .missing

/-- The time, as it stands in front of log lines. -/
def timeStamp : IO String := do
  return (← Std.Time.PlainDateTime.now).format "uuuu-MM-dd HH:mm:ss,SSS"

/-- The text and the exit code of an ending. Only a crash has a text. -/
def Ending.close : Ending → String × UInt32
  | .done code | .refused code => ("", code.toUInt32)
  | .crashed cause =>
    (cause.kind ++ ((cause.message?.map (": " ++ ·)).getD "") ++ "\n", 1)

end LazyLisp

open LazyLisp

/-- Runs the command. -/
def main (arguments : List String) : IO UInt32 := do
  let indent ← IO.getEnv Settings.indentVariable
  let logLevel ← IO.getEnv Settings.logLevelVariable
  let vars (name : String) : Option String :=
    if name = Settings.indentVariable then indent
    else if name = Settings.logLevelVariable then logLevel
    else none
  let content ← readNamed arguments
  let outcome := Command.run arguments vars fun _ => content
  let stamp ← timeStamp
  let (last, code) := outcome.ending.close
  IO.print outcome.output
  IO.eprint (outcome.errorText stamp ++ last)
  return code
