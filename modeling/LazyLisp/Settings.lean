import LazyLisp.Expr.Outline
import LazyLisp.Text.Escape
import LazyLisp.Text.UpperCase

/-!
# Settings

What a run of a program prints, and how. Settings come from two environment
variables, and the command line may change them.
-/

namespace LazyLisp

/-- The settings of a run. -/
structure Settings where
  /-- How trees are printed. -/
  style : Style := {}
  /-- The name of the level from which on events are shown. -/
  logLevel : String := "WARNING"
  /-- The tokens of the program are printed. -/
  showTokens : Bool := true
  /-- The trees of the program are printed. -/
  showTree : Bool := true
  deriving DecidableEq, Repr

namespace Settings

/-- The variable that holds the indent unit, with escapes. -/
def indentVariable : String := "MINILISP_INDENT"

/-- The variable that holds the name of the log level. -/
def logLevelVariable : String := "MINILISP_LOG_LEVEL"

/-- The value of a variable; an empty one counts as not set. -/
def nonempty? (vars : String → Option String) (name : String) : Option String :=
  (vars name).filter fun value => value ≠ ""

/-- The settings that the environment variables ask for. -/
def ofVariables (vars : String → Option String) : Settings :=
  let defaults : Settings := {}
  let indent := decodeEscapes
    ((nonempty? vars indentVariable).getD defaults.style.indent)
  let logLevel := upperCase
    ((nonempty? vars logLevelVariable).getD defaults.logLevel)
  { defaults with style := { defaults.style with indent }, logLevel }

end Settings

end LazyLisp
