import LazyLisp.Expr.Description
import LazyLisp.Text.Quoted
import LazyLisp.Text.Sorted
import LazyLisp.Text.UpperCase

/-!
# Events

What happens while a program is read and run is recorded as a list of events.
Each has a level, the name of the component it comes from, and a message; which
events are shown is decided afterwards, by a level.
-/

namespace LazyLisp

/-- How important an event is. -/
inductive Level
  | all
  | debug
  | info
  | warning
  | error
  | critical
  deriving DecidableEq, Repr

namespace Level

/-- The rank of a level: an event is shown if its rank is not below that of the
    level asked for. -/
def rank : Level → Nat
  | all => 0
  | debug => 10
  | info => 20
  | warning => 30
  | error => 40
  | critical => 50

/-- The name of a level in log lines. -/
def title : Level → String
  | all => "NOTSET"
  | debug => "DEBUG"
  | info => "INFO"
  | warning => "WARNING"
  | error => "ERROR"
  | critical => "CRITICAL"

/-- The names of the levels, two of which have two. -/
def byName : List (String × Level) :=
  [("NOTSET", all), ("DEBUG", debug), ("INFO", info), ("WARNING", warning), ("WARN", warning),
    ("ERROR", error), ("CRITICAL", critical), ("FATAL", critical)]

/-- The level of a name, in upper or lower case. -/
def ofName? (name : String) : Option Level :=
  byName.lookup (upperCase name)

/-- The text of the error that a name is not that of a level. -/
def invalidMessage (name : String) : String :=
  "Invalid log level: " ++ name

end Level

/-- What happens while a program is read and run. -/
inductive Event
  /-- The command starts to run a file. -/
  | running (file : String)
  /-- A source text was cut into tokens. -/
  | tokenized (characters tokens : Nat)
  /-- The declared names were collected. -/
  | declared (names : List String)
  /-- The tokens were read. -/
  | parsed (expressions : Nat)
  /-- A definition takes the place of an earlier one. -/
  | redefined (function : String)
  /-- The function table is complete. -/
  | tableBuilt (names : List String)
  /-- The evaluation of a top-level expression starts. -/
  | evaluating (expr : Expr)
  /-- The results were printed. -/
  | produced (results : Nat)
  deriving Repr

namespace Event

/-- The level of an event. -/
def level : Event → Level
  | running _ => .info
  | redefined _ => .warning
  | _ => .debug

/-- The component that an event comes from. -/
def component : Event → String
  | running _ => "minilisp.cli"
  | tokenized _ _ => "minilisp.reader.lexer"
  | declared _ => "minilisp.reader.prescan"
  | parsed _ => "minilisp.reader.parser"
  | redefined _ | tableBuilt _ => "minilisp.types.function_table"
  | evaluating _ => "minilisp.evaluation.evaluator"
  | produced _ => "minilisp.interpreter"

/-- The message of an event. -/
def message : Event → String
  | running file => "running " ++ file
  | tokenized m n =>
    "tokenized " ++ naturalText m ++ " characters into " ++ naturalText n ++ " tokens"
  | declared names => "prescan found functions: " ++ quotedList (sortedTexts names)
  | parsed n => "parsed " ++ naturalText n ++ " top-level expressions"
  | redefined f => "function " ++ f ++ " redefined; using the later definition"
  | tableBuilt names => "function table built: " ++ quotedList (sortedTexts names)
  | evaluating e => "evaluating " ++ e.describe
  | produced n => "program produced " ++ naturalText n ++ " results"

/-- The event is shown at the level. -/
def shownAt (event : Event) (level : Level) : Bool :=
  level.rank ≤ event.level.rank

end Event

end LazyLisp
