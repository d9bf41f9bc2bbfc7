import LazyLisp.EvalError
import LazyLisp.Expr.Same
import LazyLisp.Text.Quoted
import LazyLisp.Text.Sorted

/-!
# Function tables

The functions of a program, by name. The table is built once, from the
definitions of the program, and read from then on: a later definition of a name
takes the place of an earlier one, at the place where the name first stood.

* `FunctionTable.Draft.ofDefinitions`: the table of a list of definitions as it
  is built, with the names that were defined again on the way;
* `FunctionTable.ofDefinitions`: the table by itself.
-/

namespace LazyLisp

/-- What a function does with its arguments. -/
structure Function where
  parameters : List String
  body : List Expr
  deriving Repr

namespace Function

/-- The number of arguments that a function takes. -/
def arity (f : Function) : Nat := f.parameters.length

/-- The two functions have the same parameters and the same body. -/
def same (f g : Function) : Bool :=
  f.parameters == g.parameters && Expr.sameAll f.body g.body

end Function

/-- A function with the name it is defined for. -/
structure Definition where
  name : String
  function : Function
  deriving Repr

/-- The definition that an expression is, if it is one. -/
def Expr.definition? : Expr → Option Definition
  | .defun name parameters body => some ⟨name, ⟨parameters, body⟩⟩
  | _ => none

/-- Functions by name, in the order in which the names were first defined. -/
structure FunctionTable where
  entries : List (String × Function)
  deriving Repr

namespace FunctionTable

/-- The table without functions. -/
def empty : FunctionTable := ⟨[]⟩

/-- The function of a name. -/
def get? (t : FunctionTable) (name : String) : Option Function := t.entries.lookup name

/-- The name is defined. -/
def contains (t : FunctionTable) (name : String) : Bool := (t.get? name).isSome

/-- The defined names, in the order of their first definition. -/
def names (t : FunctionTable) : List String := t.entries.map (·.1)

/-- The number of names. -/
def size (t : FunctionTable) : Nat := t.entries.length

/-- The function of a name, for a call of it. -/
def lookup (t : FunctionTable) (name : String) : Except Stop Function :=
  match t.get? name with
  | some f => .ok f
  | none => .error (raise (.unknownFunction name))

/-- Sets the function of a name: in its place if it has one, and else at the
    end. -/
def insertEntry (name : String) (f : Function) :
    List (String × Function) → List (String × Function)
  | [] => [(name, f)]
  | (n, g) :: entries =>
    if n = name then (n, f) :: entries else (n, g) :: insertEntry name f entries

/-- Adds a definition. -/
def define (t : FunctionTable) (d : Definition) : FunctionTable :=
  ⟨insertEntry d.name d.function t.entries⟩

/-- A table while it is built. -/
structure Draft where
  /-- The functions defined so far. -/
  table : FunctionTable := empty
  /-- The names of the definitions that took the place of earlier ones. -/
  redefined : List String := []

namespace Draft

/-- Adds a definition, after a look at whether its name has one already. -/
def add (draft : Draft) (d : Definition) : Draft where
  table := draft.table.define d
  redefined :=
    if draft.table.contains d.name then draft.redefined ++ [d.name] else draft.redefined

/-- Adds the definitions one after the other. -/
def ofDefinitions (definitions : List Definition) : Draft :=
  definitions.foldl add {}

end Draft

/-- The table of the definitions, of which the last for each name counts. -/
def ofDefinitions (definitions : List Definition) : FunctionTable :=
  (Draft.ofDefinitions definitions).table

/-- The description of a table: its names in increasing order. -/
def describe (t : FunctionTable) : String :=
  "<FunctionTable " ++ quotedList (sortedTexts t.names) ++ ">"

/-- The two tables define the same names, with the same functions; the order
    does not count. -/
def same (t u : FunctionTable) : Bool :=
  t.size == u.size && t.entries.all fun (name, f) => (u.get? name).any f.same

end FunctionTable

end LazyLisp
