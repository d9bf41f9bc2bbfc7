import LazyLisp.Expr
import Mathlib

/-!
# Conditions on the nodes of a tree

What holds of every node of an expression (`Expr.every`): of the expression
itself and of all the expressions inside it, at any depth. A condition is a test
of a single node, and may look at what is below it.

A proof about all expressions goes by induction over the nodes
(`Expr.nodeInduction`): what is to be shown of a node may be assumed of all the
nodes directly below it, be they operands, bound or in a body.
-/

namespace LazyLisp

namespace Expr

/-- Induction over the nodes of a tree. -/
@[elab_as_elim, induction_eliminator]
theorem nodeInduction {motive : Expr → Prop}
    (int : ∀ n, motive (int n)) (bool : ∀ b, motive (bool b)) (str : ∀ t, motive (str t))
    (var : ∀ x, motive (var x))
    (list : ∀ es, (∀ e ∈ es, motive e) → motive (list es))
    (part : ∀ w e, motive e → motive (part w e))
    (apply : ∀ o es, (∀ e ∈ es, motive e) → motive (apply o es))
    (ite : ∀ c t e, motive c → motive t → motive e → motive (ite c t e))
    (letIn : ∀ bs es, (∀ b ∈ bs, motive b.2) → (∀ e ∈ es, motive e) → motive (letIn bs es))
    (call : ∀ f es, (∀ e ∈ es, motive e) → motive (call f es))
    (defun : ∀ f ps es, (∀ e ∈ es, motive e) → motive (defun f ps es))
    (empty : motive empty) (deferred : ∀ e l, motive e → motive (deferred e l)) (e : Expr) :
    motive e :=
  -- The nested lists have motives of their own, which are said here of their entries.
  @Expr.rec motive (fun es => ∀ e ∈ es, motive e) (fun bs => ∀ b ∈ bs, motive b.2)
    (fun b => motive b.2) int bool str var list part apply ite letIn call defun empty deferred
    nofun (fun _ _ he hes => List.forall_mem_cons.2 ⟨he, hes⟩)
    nofun (fun _ _ hb hbs => List.forall_mem_cons.2 ⟨hb, hbs⟩) (fun _ _ he => he) e

mutual

/-- The condition holds of every node of the tree. -/
def every (p : Expr → Bool) : Expr → Bool
  | list es => p (list es) && everyAll p es
  | part w e => p (part w e) && every p e
  | apply o es => p (apply o es) && everyAll p es
  | ite c t e => p (ite c t e) && (every p c && every p t && every p e)
  | letIn bs es => p (letIn bs es) && (everyBound p bs && everyAll p es)
  | call f es => p (call f es) && everyAll p es
  | defun f ps es => p (defun f ps es) && everyAll p es
  | deferred e l => p (deferred e l) && every p e
  | int n => p (int n)
  | bool b => p (bool b)
  | str t => p (str t)
  | var x => p (var x)
  | empty => p empty

/-- The condition holds of every node of the trees. -/
def everyAll (p : Expr → Bool) : List Expr → Bool
  | [] => true
  | e :: es => every p e && everyAll p es

/-- The condition holds of every node of the bound trees. -/
def everyBound (p : Expr → Bool) : List (String × Expr) → Bool
  | [] => true
  | (_, e) :: bs => every p e && everyBound p bs

end

variable {p q : Expr → Bool}

theorem everyAll_iff {es : List Expr} : everyAll p es = true ↔ ∀ e ∈ es, every p e = true := by
  induction es with
  | nil => simp [everyAll]
  | cons e es ih => rw [everyAll, Bool.and_eq_true, ih, List.forall_mem_cons]

theorem everyBound_iff {bs : List (String × Expr)} :
    everyBound p bs = true ↔ ∀ b ∈ bs, every p b.2 = true := by
  induction bs with
  | nil => simp [everyBound]
  | cons b bs ih => rw [everyBound, Bool.and_eq_true, ih, List.forall_mem_cons]

theorem every_self {e : Expr} (h : every p e = true) : p e = true := by
  cases e <;> simp_all [every]

/-- To hold of every node, a condition may be concluded from what holds in the
    whole subtree of the node. -/
theorem every_imp (hpq : ∀ e, every p e = true → q e = true) (e : Expr) (h : every p e = true) :
    every q e = true := by
  have hq := hpq e h
  induction e with
  | int _ | bool _ | str _ | var _ | empty => exact hq
  | list es ih | apply o es ih | call f es ih | defun f ps es ih =>
    simp only [every, Bool.and_eq_true, everyAll_iff] at h ⊢
    exact ⟨hq, fun e he => ih e he (h.2 e he) (hpq e (h.2 e he))⟩
  | part w e ih | deferred e l ih =>
    simp only [every, Bool.and_eq_true] at h ⊢
    exact ⟨hq, ih h.2 (hpq e h.2)⟩
  | ite c t e ihc iht ihe =>
    simp only [every, Bool.and_eq_true] at h ⊢
    obtain ⟨-, ⟨hc, ht⟩, he⟩ := h
    exact ⟨hq, ⟨ihc hc (hpq c hc), iht ht (hpq t ht)⟩, ihe he (hpq e he)⟩
  | letIn bs es ihbs ihes =>
    simp only [every, Bool.and_eq_true, everyAll_iff, everyBound_iff] at h ⊢
    obtain ⟨-, hbs, hes⟩ := h
    exact ⟨hq, fun b hb => ihbs b hb (hbs b hb) (hpq b.2 (hbs b hb)),
      fun e he => ihes e he (hes e he) (hpq e (hes e he))⟩

theorem everyAll_imp (hpq : ∀ e, every p e = true → q e = true) (es : List Expr)
    (h : everyAll p es = true) : everyAll q es = true :=
  everyAll_iff.2 fun e he => every_imp hpq e (everyAll_iff.1 h e he)

end Expr

end LazyLisp
