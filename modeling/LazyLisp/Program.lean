import LazyLisp.Eval
import LazyLisp.Event
import LazyLisp.Expr.Reader
import LazyLisp.Settings

/-!
# Programs

A program is read as a whole before any of it is evaluated. Its top-level
definitions make the function table, wherever they stand; every other top-level
expression is evaluated in order, each in an environment of its own without any
scope. So the results of a program, if it has any, are complete: nothing is
printed of them if one of the expressions has no value.

* `Reading.ofSource`: what there is to know of a source text before it is run;
* `Execution.ofProgram`: the values of the top-level expressions;
* `evalSource`: both together;
* `Transcript.ofSource`: the same with all that is printed on the way.
-/

namespace LazyLisp

/-- How deep a run may nest. -/
structure Limits where
  /-- The budget of each reading. -/
  reading : Nat := nestingLimit
  /-- The budget of each evaluation. -/
  evaluation : Nat := nestingLimit
  deriving DecidableEq, Repr

/-- The ways in which running a source text fails. -/
inductive Failure
  /-- The text is no program. -/
  | reading (cause : ReadError)
  /-- A top-level expression has no value. -/
  | running (cause : Stop)
  /-- A tree cannot be printed. -/
  | printing (cause : DigitLimitError)
  deriving Repr

/-! ### Reading -/

/-- A source text as it is read. -/
structure Reading where
  tokens : List Token
  /-- The top-level expressions. -/
  program : Except ReadError (List Expr)
  events : List Event
  deriving Repr

namespace Reading

/-- Reads a source text. -/
def ofSource (source : String) (depth : Nat := nestingLimit) : Reading :=
  let tokens := tokenize source
  let program := readProgram depth tokens
  let parsed :=
    match program with
    | .ok es => [Event.parsed es.length]
    | .error _ => []
  { tokens, program
    events := [.tokenized source.length tokens.length, .declared (declaredNames tokens)] ++ parsed }

end Reading

/-! ### Evaluation -/

/-- What comes of the evaluation of expressions, one after the other. -/
structure Execution where
  /-- The values of all expressions, or why the first of them that has none
      has none. -/
  values : Except Stop (List Expr)
  events : List Event
  deriving Repr

namespace Execution

/-- Evaluates expressions in order, each in a new environment, up to the first
    that has no value. -/
def ofExprs (functions : FunctionTable) (depth : Nat) : List Expr → Execution
  | [] => ⟨.ok [], []⟩
  | e :: es =>
    match (evaluateIn functions depth [] e).1 with
    | .error stop => ⟨.error stop, [.evaluating e]⟩
    | .ok v =>
      let rest := ofExprs functions depth es
      ⟨rest.values.map (v :: ·), .evaluating e :: rest.events⟩

/-- The definitions at the top level of a program. -/
def definitions (program : List Expr) : List Definition :=
  program.filterMap Expr.definition?

/-- What is to be evaluated of a program: all but the definitions. -/
def body (program : List Expr) : List Expr :=
  program.filter fun e => e.definition?.isNone

/-- The events of building a function table. -/
def tableEvents (definitions : List Definition) : List Event :=
  let draft := FunctionTable.Draft.ofDefinitions definitions
  draft.redefined.map .redefined ++ [.tableBuilt draft.table.names]

/-- Evaluates a program. -/
def ofProgram (program : List Expr) (depth : Nat := nestingLimit) : Execution :=
  let functions := FunctionTable.ofDefinitions (definitions program)
  let execution := ofExprs functions depth (body program)
  { execution with events := tableEvents (definitions program) ++ execution.events }

end Execution

/-- The values of a source text. -/
def evalSource (source : String) (limits : Limits := {}) : Except Failure (List Expr) :=
  match (Reading.ofSource source limits.reading).program with
  | .error cause => .error (.reading cause)
  | .ok program => (Execution.ofProgram program limits.evaluation).values.mapError .running

/-! ### Printing -/

/-- The outlines of the trees, one after the other, up to the first that cannot
    be printed, and whether there was one. -/
def printTrees (style : Style) : List Expr → List String × Except DigitLimitError Unit
  | [] => ([], .ok ())
  | e :: es =>
    match e.written (style.render 0 e) with
    | .error cause => ([], .error cause)
    | .ok lines =>
      let (more, ending) := printTrees style es
      (lines ++ more, ending)

/-- A run of a source text: its values, and what was printed and recorded until
    it was complete or failed. -/
structure Transcript where
  values : Except Failure (List Expr)
  /-- The printed lines. A line may hold line breaks of its own. -/
  lines : List String
  events : List Event
  deriving Repr

namespace Transcript

/-- The printed text. -/
def output (t : Transcript) : String :=
  String.join (t.lines.map (· ++ "\n"))

/-- Runs a source text: prints its tokens and its trees, if asked for,
    evaluates it, and prints the trees of the results. -/
def ofSource (settings : Settings) (source : String) (limits : Limits := {}) : Transcript :=
  let reading := Reading.ofSource source limits.reading
  match reading.program with
  | .error cause => ⟨.error (.reading cause), [], reading.events⟩
  | .ok program =>
    let tokenLine := if settings.showTokens then [joinTokens reading.tokens] else []
    let (treeLines, trees) := printTrees settings.style (if settings.showTree then program else [])
    let shown := tokenLine ++ treeLines
    match trees with
    | .error cause => ⟨.error (.printing cause), shown, reading.events⟩
    | .ok () =>
      let execution := Execution.ofProgram program limits.evaluation
      let events := reading.events ++ execution.events
      match execution.values with
      | .error cause => ⟨.error (.running cause), shown, events⟩
      | .ok values =>
        match printTrees settings.style values with
        | (lines, .error cause) => ⟨.error (.printing cause), shown ++ lines, events⟩
        | (lines, .ok ()) => ⟨.ok values, shown ++ lines, events ++ [.produced values.length]⟩

end Transcript

end LazyLisp
