import LazyLisp.Expr
import LazyLisp.Numeral
import LazyLisp.Text.Quoted

/-!
# Descriptions

The description of an expression names each node with its fields, so that it
shows the whole tree on one line: `Variable(name='x')`. Error messages and log
lines quote expressions in this form. Names and texts are quoted, and a
sequence stands in parentheses, with a comma after its only element if there is
just one.
-/

namespace LazyLisp

/-- A sequence of descriptions, in parentheses. -/
def tupleText : List String → String
  | [] => "()"
  | [item] => "(" ++ item ++ ",)"
  | items => "(" ++ ", ".intercalate items ++ ")"

namespace Expr

mutual

/-- The description of an expression. Of a deferred one it shows the
    expression, not the environment. -/
def describe : Expr → String
  | int n => "IntLiteral(value=" ++ decimal n ++ ")"
  | bool b => "BoolLiteral(value=" ++ (if b then "True" else "False") ++ ")"
  | str t => "StringLiteral(text=" ++ quoted t ++ ")"
  | var x => "Variable(name=" ++ quoted x ++ ")"
  | list es => "ListLiteral(elements=" ++ tupleText (describeAll es) ++ ")"
  | part p e => p.title ++ "(target=" ++ describe e ++ ")"
  | apply o es => o.title ++ "(operands=" ++ tupleText (describeAll es) ++ ")"
  | ite c t e =>
    "If(condition=" ++ describe c ++ ", then_branch=" ++ describe t
      ++ ", else_branch=" ++ describe e ++ ")"
  | letIn bs es =>
    "Let(bindings=" ++ tupleText (describeBindings bs)
      ++ ", body=" ++ tupleText (describeAll es) ++ ")"
  | call f es =>
    "Call(function_name=" ++ quoted f ++ ", arguments=" ++ tupleText (describeAll es) ++ ")"
  | defun f ps es =>
    "FunctionDef(name=" ++ quoted f ++ ", parameters=" ++ tupleText (ps.map quoted)
      ++ ", body=" ++ tupleText (describeAll es) ++ ")"
  | empty => "Empty"
  | deferred e _ => "Deferred(" ++ describe e ++ ")"

/-- The descriptions of the expressions, in order. -/
def describeAll : List Expr → List String
  | [] => []
  | e :: es => describe e :: describeAll es

/-- The descriptions of the bindings, each as a pair of name and expression. -/
def describeBindings : List (String × Expr) → List String
  | [] => []
  | (x, e) :: bs => tupleText [quoted x, describe e] :: describeBindings bs

end

end Expr

end LazyLisp
