import LazyLisp.Builtin
import LazyLisp.Proofs.Expr.Every

/-!
# Sameness is identity

The comparison behind the operator `=` tells any two trees apart that are not one and
the same (`Expr.same_iff`): nothing is converted before it is compared, lists of
different lengths differ, and so do nodes of different kinds, wherever in the trees they
are. So it is an equivalence, and to compare each operand with the first is to compare
all of them with each other (`allSame_iff`).

Lists are taken apart by the comparison itself, as long as it does not meet another node,
and by the comparison of trees below such a node. As the lengths are compared first, no
element is left out, and the two come to the same (`Expr.same_eq_sameTree`).

The places in a tree are paths from its root (`Expr.subtree?`). Two trees with an integer
and a truth value at the same place are different, however deep it is.
-/

namespace LazyLisp

namespace Expr

/-! ## Comparison of trees -/

section Same

variable {es fs : List Expr} {bs cs : List (String × Expr)}

theorem sameAll_iff_of_sameTree_iff (h : ∀ e ∈ es, ∀ f, e.sameTree f = true ↔ e = f) :
    sameAll es fs = true ↔ es = fs := by
  induction es generalizing fs with
  | nil => cases fs <;> simp [sameAll]
  | cons e es ih =>
    rw [List.forall_mem_cons] at h
    cases fs with
    | nil => simp [sameAll]
    | cons f fs => rw [sameAll, Bool.and_eq_true, h.1, ih h.2, List.cons.injEq]

theorem sameBindings_iff_of_sameTree_iff (h : ∀ b ∈ bs, ∀ f, b.2.sameTree f = true ↔ b.2 = f) :
    sameBindings bs cs = true ↔ bs = cs := by
  induction bs generalizing cs with
  | nil => cases cs <;> simp [sameBindings]
  | cons b bs ih =>
    rw [List.forall_mem_cons] at h
    cases cs with
    | nil => simp [sameBindings]
    | cons c cs =>
      rw [sameBindings, Bool.and_eq_true, Bool.and_eq_true, h.1, ih h.2, beq_iff_eq,
        List.cons.injEq, Prod.ext_iff]

theorem sameTree_iff {a b : Expr} : a.sameTree b = true ↔ a = b := by
  -- Nodes of different kinds are neither the same nor equal; nodes of one kind are
  -- compared as their parts are.
  induction a generalizing b with
  | int _ | bool _ | str _ | var _ | empty => cases b <;> simp [sameTree]
  | list es ih | apply o es ih | call f es ih | defun f ps es ih =>
    have hes {fs : List Expr} : sameAll es fs = true ↔ es = fs :=
      sameAll_iff_of_sameTree_iff fun e he _ => ih e he
    cases b <;> simp [sameTree, hes, and_assoc]
  | part w e ih | deferred e l ih => cases b <;> simp [sameTree, ih]
  | ite c t e ihc iht ihe => cases b <;> simp [sameTree, ihc, iht, ihe, and_assoc]
  | letIn bs es ihbs ihes =>
    have hbs {cs : List (String × Expr)} : sameBindings bs cs = true ↔ bs = cs :=
      sameBindings_iff_of_sameTree_iff fun b hb _ => ihbs b hb
    have hes {fs : List Expr} : sameAll es fs = true ↔ es = fs :=
      sameAll_iff_of_sameTree_iff fun e he _ => ihes e he
    cases b <;> simp [sameTree, hbs, hes]

/-- To compare lists of the same length pair by pair is to compare them as trees. -/
theorem samePairs_eq_sameAll (h : ∀ e ∈ es, ∀ f, e.same f = e.sameTree f) :
    (es.length == fs.length && samePairs es fs) = sameAll es fs := by
  induction es generalizing fs with
  | nil => cases fs <;> simp [samePairs, sameAll]
  | cons e es ih =>
    rw [List.forall_mem_cons] at h
    cases fs with
    | nil => simp [sameAll]
    | cons f fs =>
      have hlength : ((e :: es).length == (f :: fs).length) = (es.length == fs.length) := by simp
      rw [samePairs, sameAll, h.1, ← ih h.2, hlength, Bool.and_left_comm]

theorem same_eq_sameTree (a b : Expr) : a.same b = a.sameTree b := by
  induction a generalizing b with
  | list es ih =>
    cases b with
    | list fs => exact samePairs_eq_sameAll fun e he f => ih e he f
    | _ => rfl
  | _ => rfl

/-- Trees are the same exactly if they are one tree. -/
theorem same_iff {a b : Expr} : a.same b = true ↔ a = b := by
  rw [same_eq_sameTree, sameTree_iff]

theorem same_eq_false_iff {a b : Expr} : a.same b = false ↔ a ≠ b := by
  rw [← Bool.not_eq_true, same_iff]

end Same

/-! ## Places in a tree -/

/-- The expressions directly inside a node, those that a `let` binds before those of its
    body. -/
def inner : Expr → List Expr
  | list es | apply _ es | call _ es | defun _ _ es => es
  | part _ e | deferred e _ => [e]
  | ite c t e => [c, t, e]
  | letIn bs es => bs.map Prod.snd ++ es
  | int _ | bool _ | str _ | var _ | empty => []

/-- The tree at the end of a path from the root, which names the places to go on to. -/
def subtree? (e : Expr) : List Nat → Option Expr
  | [] => some e
  | i :: path => e.inner[i]?.bind (subtree? · path)

end Expr

/-! ## Comparison of operands -/

/-- To be the same as the first operand is for all of them to be one tree. -/
theorem allSame_iff {es : List Expr} : allSame es = true ↔ ∀ e ∈ es, ∀ f ∈ es, e = f := by
  cases es with
  | nil => simp [allSame]
  | cons e es =>
    simp only [allSame, List.all_eq_true, Expr.same_iff]
    constructor
    · intro h
      have hall : ∀ f ∈ e :: es, e = f := List.forall_mem_cons.2 ⟨rfl, h⟩
      exact fun f hf g hg => (hall f hf).symm.trans (hall g hg)
    · exact fun h f hf => h e List.mem_cons_self f (List.mem_cons_of_mem e hf)

/-- Comparison is identity of trees, and hence an equivalence under which no integer is a
    truth value at any depth; and the operator `=` is true of operands that are pairwise
    one tree, and false of all others. -/
theorem same_exact :
    (∀ a b : Expr, a.same b = true ↔ a = b) ∧
      (∀ a : Expr, a.same a = true) ∧
      (∀ a b : Expr, a.same b = true → b.same a = true) ∧
      (∀ a b c : Expr, a.same b = true → b.same c = true → a.same c = true) ∧
      (∀ (a b : Expr) (path : List Nat) (n : Int) (v : Bool),
        a.subtree? path = some (.int n) → b.subtree? path = some (.bool v) →
          a.same b = false ∧ b.same a = false) ∧
      ∀ es : List Expr, ∃ v, Op.equal.run es = .ok (.bool v) ∧
        (v = true ↔ ∀ e ∈ es, ∀ f ∈ es, e = f) := by
  refine ⟨fun _ _ => Expr.same_iff, fun _ => Expr.same_iff.2 rfl, ?_, ?_, ?_, ?_⟩
  · intro a b hab
    exact Expr.same_iff.2 (Expr.same_iff.1 hab).symm
  · intro a b c hab hbc
    exact Expr.same_iff.2 ((Expr.same_iff.1 hab).trans (Expr.same_iff.1 hbc))
  · intro a b path n v ha hb
    have hne : a ≠ b := by
      rintro rfl
      rw [ha] at hb
      simp at hb
    exact ⟨Expr.same_eq_false_iff.2 hne, Expr.same_eq_false_iff.2 hne.symm⟩
  · exact fun es => ⟨allSame es, rfl, allSame_iff⟩

/-- Trees that differ only in a list bound by a `let`, where the one has an integer and the
    other a truth value. -/
theorem same_exact_bound :
    let a : Expr := .letIn [("x", .int 1), ("y", .list [.str "1", .int 1])] [.var "y"]
    let b : Expr := .letIn [("x", .int 1), ("y", .list [.str "1", .bool true])] [.var "y"]
    (a.same a = true ∧ a.subtree? [1, 1] = some (.int 1) ∧
        b.subtree? [1, 1] = some (.bool true)) ∧
      (a.same b = false ∧ b.same a = false) ∧
      ∃ v, Op.equal.run [a, a, b] = .ok (.bool v) ∧
        (v = true ↔ ∀ e ∈ [a, a, b], ∀ f ∈ [a, a, b], e = f) := by
  intro a b
  obtain ⟨-, hrefl, -, -, hplace, hequal⟩ := same_exact
  exact ⟨⟨hrefl a, rfl, rfl⟩, hplace a b [1, 1] 1 true rfl rfl, hequal [a, a, b]⟩

end LazyLisp
