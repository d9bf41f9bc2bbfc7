import LazyLisp.Expr
import Mathlib

/-!
# Substitution

An expression put in place of the free references to a name (`Expr.subst`). It goes
wherever references are free, in the sense of `Expr.free`: into the bound
expressions of every `let`, which are outside of it, but into its body only if the
`let` does not bind the name itself; into the arguments of a call, and never into a
definition.

The expression is put there as it is. So a `let` that binds one of its own free names
would capture it, and has to be excluded where this matters (`Expr.spares`).
-/

namespace LazyLisp

namespace Expr

mutual

/-- The expression with `e` in place of the free references to `x`. -/
def subst (b : Expr) (x : String) (e : Expr) : Expr :=
  match b with
  | var y => if y = x then e else var y
  | list es => list (substAll es x e)
  | part w c => part w (subst c x e)
  | apply o es => apply o (substAll es x e)
  | ite c t f => ite (subst c x e) (subst t x e) (subst f x e)
  | letIn bs es => letIn (substBound bs x e) (if x ∈ bs.map Prod.fst then es else substAll es x e)
  | call f es => call f (substAll es x e)
  | int n => int n
  | bool b => bool b
  | str t => str t
  | defun f ps es => defun f ps es
  | empty => empty
  | deferred c l => deferred c l

/-- The expressions with `e` in place of the free references to `x`. -/
def substAll (es : List Expr) (x : String) (e : Expr) : List Expr :=
  match es with
  | [] => []
  | c :: cs => subst c x e :: substAll cs x e

/-- The bindings with `e` in place of the free references to `x` in what is bound. -/
def substBound (bs : List (String × Expr)) (x : String) (e : Expr) : List (String × Expr) :=
  match bs with
  | [] => []
  | (y, c) :: bs => (y, subst c x e) :: substBound bs x e

end

/-- If the node is a `let`, then it binds none of the names. -/
def spares (names : List String) : Expr → Bool
  | letIn bs _ => bs.all (·.1 ∉ names)
  | _ => true

variable {x : String} {e : Expr}

theorem substAll_eq_map (es : List Expr) : substAll es x e = es.map (subst · x e) := by
  induction es with
  | nil => rfl
  | cons t ts ih => rw [substAll, ih, List.map_cons]

theorem substBound_eq_map (bs : List (String × Expr)) :
    substBound bs x e = bs.map (Prod.map id (subst · x e)) := by
  induction bs with
  | nil => rfl
  | cons b bs ih => rw [substBound, ih, List.map_cons, Prod.map, id]

end Expr

end LazyLisp
