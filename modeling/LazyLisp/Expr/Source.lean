import LazyLisp.Expr
import LazyLisp.Numeral

/-!
# Source text

The source text of an expression is a text that reads as this expression again,
given that its names and texts are such as can be read. A text stands between
quotation marks with a blank inside each of them, so that its words are tokens
by themselves.
-/

namespace LazyLisp

/-- Words in parentheses, a space between each two. -/
def formText (words : List String) : String :=
  "(" ++ " ".intercalate words ++ ")"

namespace Expr

mutual

/-- The source text of an expression. -/
def source : Expr → String
  | int n => decimal n
  | bool b => boolText b
  | str t => if t = "" then "\" \"" else "\" " ++ t ++ " \""
  | var x => x
  | list es => formText ("list" :: sourceAll es)
  | part p e => formText [p.symbol, source e]
  | apply o es => formText (o.symbol :: sourceAll es)
  | ite c t e => formText ["if", source c, source t, source e]
  | letIn bs es => formText ("let" :: formText (sourceBindings bs) :: sourceAll es)
  | call f es => formText (f :: sourceAll es)
  | defun f ps es => formText ("defun" :: f :: formText ps :: sourceAll es)
  | empty => "()"
  | deferred e _ => source e

/-- The source texts of the expressions, in order. -/
def sourceAll : List Expr → List String
  | [] => []
  | e :: es => source e :: sourceAll es

/-- The source texts of the bindings, each as a group of name and expression. -/
def sourceBindings : List (String × Expr) → List String
  | [] => []
  | (x, e) :: bs => formText [x, source e] :: sourceBindings bs

end

end Expr

end LazyLisp
