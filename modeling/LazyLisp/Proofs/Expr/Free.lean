import LazyLisp.Expr
import Mathlib

/-!
# Free names

The names through which an expression depends on the environment it is evaluated
in: those it refers to, less the ones that a `let` around the reference binds.

* The bound expressions of a `let` are evaluated outside of it, so that all their
  free names are free in the `let`, and only its body is under its names.
* The body of a function sees nothing but the parameters, so that a call has the
  free names of its arguments, whatever the function is.
* A definition has none: where a value is needed, it fails before its body is
  looked at.
-/

namespace LazyLisp

namespace Expr

mutual

/-- The free names of the expression. -/
def free : Expr → List String
  | var x => [x]
  | list es => freeAll es
  | part _ e => free e
  | apply _ es => freeAll es
  | ite c t e => free c ++ free t ++ free e
  | letIn bs es => freeBound bs ++ (freeAll es).filter (· ∉ bs.map Prod.fst)
  | call _ es => freeAll es
  | int _ | bool _ | str _ | defun _ _ _ | empty | deferred _ _ => []

/-- The free names of the expressions. -/
def freeAll : List Expr → List String
  | [] => []
  | e :: es => free e ++ freeAll es

/-- The free names of the bound expressions. -/
def freeBound : List (String × Expr) → List String
  | [] => []
  | (_, e) :: bs => free e ++ freeBound bs

end

variable {x : String} {e : Expr} {es : List Expr} {bs : List (String × Expr)}

theorem mem_freeAll : x ∈ freeAll es ↔ ∃ e ∈ es, x ∈ e.free := by
  induction es with
  | nil => simp [freeAll]
  | cons e es ih => rw [freeAll, List.mem_append, ih, List.exists_mem_cons_iff]

theorem mem_freeBound : x ∈ freeBound bs ↔ ∃ b ∈ bs, x ∈ b.2.free := by
  induction bs with
  | nil => simp [freeBound]
  | cons b bs ih => rw [freeBound, List.mem_append, ih, List.exists_mem_cons_iff]

theorem free_subset_freeAll (he : e ∈ es) : e.free ⊆ freeAll es :=
  fun _ hx => mem_freeAll.2 ⟨e, he, hx⟩

/-- What a `let` binds is outside of it. -/
theorem free_subset_letIn (he : (x, e) ∈ bs) (es : List Expr) : e.free ⊆ (letIn bs es).free := by
  intro y hy
  rw [free, List.mem_append]
  exact .inl (mem_freeBound.2 ⟨(x, e), he, hy⟩)

/-- A name of the body that the `let` does not bind is free in it. -/
theorem mem_free_letIn (hx : x ∈ freeAll es) (hbs : x ∉ bs.map Prod.fst) :
    x ∈ (letIn bs es).free := by
  rw [free, List.mem_append, List.mem_filter]
  exact .inr ⟨hx, decide_eq_true hbs⟩

end Expr

end LazyLisp
