/-!
# Expressions

The trees that programs are read into and evaluated to: one type serves for
both, as a value is an expression of a simple shape (an integer, a truth value,
a text, or a list of values).

Operators that take any number of operands share the node `Expr.apply`, and the
two parts of a list share `Expr.part`, so that what is said about one operator
is said about all of them.

A *deferred* expression is an argument of a call that has not been reduced yet.
It stands for `expr` read in the environment at the location `home`; calls put
such entries into scopes, and they have no reduction of their own.
-/

namespace LazyLisp

/-- The place of an environment in a store. Two names for the same location are
    two names for the same, mutable, environment. -/
abbrev Loc := Nat

/-- The operators that take any number of operands. -/
inductive Op
  | equal
  | add
  | multiply
  | subtract
  | divide
  deriving DecidableEq, Repr

/-- The parts of a non-empty list: its first element (`car`), or the list of
    the others (`cdr`). -/
inductive Part
  | car
  | cdr
  deriving DecidableEq, Repr

/-- The expressions of the language. -/
inductive Expr
  /-- An integer of any size. -/
  | int (value : Int)
  /-- A truth value. -/
  | bool (value : Bool)
  /-- A text. -/
  | str (text : String)
  /-- A reference to a bound name. -/
  | var (name : String)
  /-- A list, reduced element by element. -/
  | list (elements : List Expr)
  /-- A part of the list that `target` reduces to. -/
  | part (which : Part) (target : Expr)
  /-- An operator on its operands. -/
  | apply (op : Op) (operands : List Expr)
  /-- A choice: only the chosen branch is reduced. -/
  | ite (condition thenBranch elseBranch : Expr)
  /-- Names bound for the expressions of the body. -/
  | letIn (bindings : List (String × Expr)) (body : List Expr)
  /-- A call of a function by its name. -/
  | call (function : String) (arguments : List Expr)
  /-- The definition of a function. -/
  | defun (name : String) (parameters : List String) (body : List Expr)
  /-- What an exhausted group of tokens reads as. -/
  | empty
  /-- An argument to be reduced in the environment at `home`. -/
  | deferred (expr : Expr) (home : Loc)
  deriving Repr, Inhabited

namespace Op

/-- How an operator is written. -/
def symbol : Op → String
  | equal => "="
  | add => "+"
  | multiply => "*"
  | subtract => "-"
  | divide => "/"

/-- The name of an operator as it stands in the outline of a tree. -/
def title : Op → String
  | equal => "Equal"
  | add => "Add"
  | multiply => "Multiply"
  | subtract => "Subtract"
  | divide => "Divide"

end Op

namespace Part

/-- How a part of a list is written. -/
def symbol : Part → String
  | car => "car"
  | cdr => "cdr"

/-- The name of a part as it stands in the outline of a tree. -/
def title : Part → String
  | car => "Car"
  | cdr => "Cdr"

end Part

namespace Expr

/-- How a truth value is written. -/
def boolText (b : Bool) : String :=
  if b then "true" else "false"

/-- The expressions directly below a node. The bound expressions and the body
    of a `letIn` are not among them: they stand in two groups of their own. -/
def children : Expr → List Expr
  | list es => es
  | part _ e => [e]
  | apply _ es => es
  | ite c t e => [c, t, e]
  | call _ es => es
  | defun _ _ es => es
  | _ => []

end Expr

end LazyLisp
