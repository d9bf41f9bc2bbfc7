import LazyLisp.Token

/-!
# Declared names

A call cannot be told from a reference without knowing which names are those of
functions, so the names that a program declares are collected before any of it
is read: functions may be called before the place of their definition.
-/

namespace LazyLisp

/-- The identifiers that follow a `defun`, in order of appearance. A name that
    is itself `defun` does not declare what follows it. -/
def declaredNames : List Token → List String
  | [] => []
  | [_] => []
  | t :: u :: ts =>
    if t = "defun" ∧ isIdentifier u = true then u :: declaredNames ts
    else declaredNames (u :: ts)

end LazyLisp
