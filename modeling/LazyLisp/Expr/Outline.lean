import LazyLisp.Expr
import LazyLisp.Numeral

/-!
# Outlines

The outline of an expression shows the tree with one line for each node, and
what is below a node one level deeper. A `let` shows a line for each binding,
with the bound tree below it, and then its body.

* `Expr.outline`: the lines, each with its depth and the ink it is printed in;
* `Style.render`: the lines as text, padded and, if asked for, coloured.
-/

namespace LazyLisp

/-- The kinds of lines that colour tells apart. -/
inductive Ink
  | literal
  | name
  | call
  | form
  deriving DecidableEq, Repr

namespace Ink

/-- The terminal sequence that switches the colour on. -/
def on : Ink → String
  | literal => "\x1b[92m"
  | name => "\x1b[94m"
  | call => "\x1b[95m"
  | form => "\x1b[90m"

/-- The terminal sequence that switches all colours off. -/
def off : String := "\x1b[0m"

/-- A text in colour. -/
def paint (ink : Ink) (text : String) : String :=
  ink.on ++ text ++ off

end Ink

/-- A line of an outline. -/
structure Line where
  /-- How many levels below the root it stands. -/
  depth : Nat
  ink : Ink
  text : String
  deriving DecidableEq, Repr

namespace Expr

/-- The line of a node: its kind, with its name or literal where it has one. -/
def label : Expr → String
  | int n => "Int(" ++ decimal n ++ ")"
  | bool b => "Bool(" ++ boolText b ++ ")"
  | str t => "String(\"" ++ t ++ "\")"
  | var x => "Variable(" ++ x ++ ")"
  | list _ => "List"
  | part p _ => p.title
  | apply o _ => o.title
  | ite _ _ _ => "If"
  | letIn _ _ => "Let"
  | call f _ => "Call(" ++ f ++ ")"
  | defun f ps _ => "FunctionDef(" ++ f ++ ", params=[" ++ ", ".intercalate ps ++ "])"
  | empty => "Empty"
  | deferred _ _ => "Deferred"

/-- The ink of a node. -/
def ink : Expr → Ink
  | int _ | bool _ | str _ => .literal
  | var _ => .name
  | call _ _ | defun _ _ _ => .call
  | _ => .form

/-- The line of a node at a depth. -/
def line (e : Expr) (depth : Nat) : Line :=
  ⟨depth, e.ink, e.label⟩

mutual

/-- The lines of the tree, with its root at the given depth. -/
def outline (depth : Nat) : Expr → List Line
  | list es => (list es).line depth :: outlineAll (depth + 1) es
  | part p e => (part p e).line depth :: outline (depth + 1) e
  | apply o es => (apply o es).line depth :: outlineAll (depth + 1) es
  | ite c t e =>
    (ite c t e).line depth
      :: (outline (depth + 1) c ++ outline (depth + 1) t ++ outline (depth + 1) e)
  | letIn bs es =>
    (letIn bs es).line depth :: (outlineBindings depth bs ++ outlineAll (depth + 1) es)
  | call f es => (call f es).line depth :: outlineAll (depth + 1) es
  | defun f ps es => (defun f ps es).line depth :: outlineAll (depth + 1) es
  | int n => [(int n).line depth]
  | bool b => [(bool b).line depth]
  | str t => [(str t).line depth]
  | var x => [(var x).line depth]
  | empty => [empty.line depth]
  | deferred e l => [(deferred e l).line depth]

/-- The lines of the trees, one tree after the other. -/
def outlineAll (depth : Nat) : List Expr → List Line
  | [] => []
  | e :: es => outline depth e ++ outlineAll depth es

/-- The lines of the bindings of a `let` at the given depth. -/
def outlineBindings (depth : Nat) : List (String × Expr) → List Line
  | [] => []
  | (x, e) :: bs =>
    ⟨depth + 1, .name, "Binding(" ++ x ++ ")"⟩ :: (outline (depth + 2) e ++ outlineBindings depth bs)

end

end Expr

/-- How outlines are printed. -/
structure Style where
  /-- What stands before a line for each level of its depth. -/
  indent : String := "  "
  /-- Lines are printed in colour. -/
  color : Bool := false
  deriving DecidableEq, Repr

namespace Style

/-- The space before a line; a negative depth has none. -/
def pad (style : Style) (depth : Int) : String :=
  String.join (List.replicate depth.toNat style.indent)

/-- A line of an outline whose root stands at the depth `base`. -/
def renderLine (style : Style) (base : Int) (line : Line) : String :=
  style.pad (base + line.depth) ++ (if style.color then line.ink.paint line.text else line.text)

/-- The outline of an expression as text, its root at the depth `base`. -/
def render (style : Style) (base : Int) (e : Expr) : List String :=
  (e.outline 0).map (style.renderLine base)

/-- The outline of an expression as one text. -/
def renderText (style : Style) (e : Expr) : String :=
  "\n".intercalate (style.render 0 e)

end Style

end LazyLisp
