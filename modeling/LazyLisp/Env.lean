import LazyLisp.Expr.Description
import LazyLisp.Expr.Writable

/-!
# Environments

An environment is a stack of scopes, the innermost first, and a scope is the
list of the bindings of one `let` or one call, in their order. What is bound is
an expression, not a value: it is reduced when it is referred to.
-/

namespace LazyLisp

/-- The bindings of one `let` or one call. -/
abbrev Scope := List (String × Expr)

/-- A stack of scopes, the innermost first. -/
abbrev Env := List Scope

namespace Env

/-- What a name is bound to, and how many scopes lie inside the one that binds
    it. The innermost scope that binds the name decides, and in it the first
    binding. -/
def find (name : String) : Env → Option (Expr × Nat)
  | [] => none
  | scope :: outer =>
    match scope.lookup name with
    | some bound => some (bound, 0)
    | none => (find name outer).map fun (bound, depth) => (bound, depth + 1)

/-- The description of a scope, its bindings in braces. -/
def describeScope (scope : Scope) : String :=
  "\x7b" ++ ", ".intercalate (scope.map fun (x, e) => x ++ ": " ++ e.describe) ++ "\x7d"

/-- The description of an environment, its scopes from the innermost out. -/
def describe (env : Env) : String :=
  "<Environment: " ++ " -> ".intercalate (env.map describeScope) ++ ">"

/-- The digit limit lets the environment be described. -/
def writable (env : Env) : Bool :=
  env.all Expr.writableBindings

end Env

end LazyLisp
