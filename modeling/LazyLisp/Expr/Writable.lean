import LazyLisp.Expr
import LazyLisp.Numeral

/-!
# Writable expressions

Every text made of an expression writes all of its integers, so the digit limit
decides for the tree as a whole whether there is a text at all. The printers
are therefore plain functions to text, and `Expr.written` puts the limit in
front of them.
-/

namespace LazyLisp

namespace Expr

mutual

/-- All integers of the tree can be written. -/
def writable : Expr → Bool
  | int n => fitsDigitLimit n
  | list es => writableAll es
  | part _ e => writable e
  | apply _ es => writableAll es
  | ite c t e => writable c && writable t && writable e
  | letIn bs es => writableBindings bs && writableAll es
  | call _ es => writableAll es
  | defun _ _ es => writableAll es
  | deferred e _ => writable e
  | bool _ | str _ | var _ | empty => true

/-- All integers of the trees can be written. -/
def writableAll : List Expr → Bool
  | [] => true
  | e :: es => writable e && writableAll es

/-- All integers of the bound trees can be written. -/
def writableBindings : List (String × Expr) → Bool
  | [] => true
  | (_, e) :: bs => writable e && writableBindings bs

end

/-- A text made of an expression, unless the digit limit forbids to write it. -/
def written {α : Type} (e : Expr) (text : α) : Except DigitLimitError α :=
  if e.writable then .ok text else .error .writing

end Expr

end LazyLisp
