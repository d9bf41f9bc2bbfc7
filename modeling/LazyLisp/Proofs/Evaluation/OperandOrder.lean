import LazyLisp.Proofs.Evaluation.Agreement
import LazyLisp.Proofs.Evaluation.Arithmetic
import LazyLisp.Proofs.Expr.Sameness

/-!
# The order of operands

An operator that has a value has the same value for its operands in another order
(`evaluate_apply_reordered`). For this, no operand may have an effect on the evaluation
of the next, though all of them are evaluated in one environment, which changes under
each of them; in scopes that never change it is plain that there is none, and that is
where the values of the operands are compared (`reduceAll_eq_ok_iff`).

What the order is of no importance to (`Op.Reordering`) depends on the operator. Sums,
products and comparisons take their operands in any order; a subtraction and a division
start from the first operand, and only the others may change their places.

Nothing is said of operators that have no value: which error is found depends on the
order in which it is looked for.
-/

namespace LazyLisp

/-! ## Reorderings -/

/-- The operator treats all its operands alike. -/
def Op.commutes : Op → Bool
  | equal | add | multiply => true
  | subtract | divide => false

/-- The operands of an operator, or what stands for them, in another order that is of no
    importance to it: in any order, or with the first where it was. -/
inductive Op.Reordering {α : Type} (op : Op) : List α → List α → Prop
  | all {xs ys : List α} : op.commutes = true → xs.Perm ys → Reordering op xs ys
  | others {x : α} {xs ys : List α} : xs.Perm ys → Reordering op (x :: xs) (x :: ys)

namespace Op.Reordering

variable {α β : Type} {op : Op} {xs ys : List α}

theorem perm (h : op.Reordering xs ys) : xs.Perm ys := by
  cases h with
  | all _ h => exact h
  | others h => exact h.cons _

/-- If the operands correspond to something one by one, then what they correspond to has
    been reordered as they have. -/
theorem exists_forall₂ {R : α → β → Prop} {us : List β} (h : op.Reordering xs ys)
    (hR : List.Forall₂ R xs us) : ∃ vs, List.Forall₂ R ys vs ∧ op.Reordering us vs := by
  cases h with
  | all hop h =>
    obtain ⟨vs, hvs, hperm⟩ := List.perm_comp_forall₂ h.symm hR
    exact ⟨vs, hvs, .all hop hperm.symm⟩
  | others h =>
    cases hR with
    | cons hx hxs =>
      obtain ⟨vs, hvs, hperm⟩ := List.perm_comp_forall₂ h.symm hxs
      exact ⟨_, .cons hx hvs, .others hperm.symm⟩

end Op.Reordering

/-! ## Operators on values -/

section Operators

variable {op : Op} {vs ws : List Expr} {v : Expr}

theorem allSame_perm (h : vs.Perm ws) : allSame vs = allSame ws := by
  rw [Bool.eq_iff_iff, allSame_iff, allSame_iff]
  simp only [h.mem_iff]

/-- The result of an operator is that of the same values in another order. -/
theorem Op.run_reordering (h : op.Reordering vs ws) (hv : op.run vs = .ok v) :
    op.run ws = .ok v := by
  by_cases hop : op = .equal
  · subst hop
    rwa [Op.run, ← allSame_perm h.perm]
  obtain ⟨ns, hns⟩ := Op.exists_integers hv hop
  obtain ⟨ms, hms, hreordering⟩ := h.exists_forall₂ (integers_eq_ok_iff.1 hns)
  have hms : integers op ws = .ok ms := integers_eq_ok_iff.2 hms
  cases op with
  | equal => exact absurd rfl hop
  | add =>
    rw [← hv, Op.run_add hns, Op.run_add hms, hreordering.perm.sum_eq]
  | multiply =>
    rw [← hv, Op.run_multiply hns, Op.run_multiply hms, hreordering.perm.prod_eq]
  | subtract =>
    cases hreordering with
    | all hcommutes _ => cases hcommutes
    | others hperm => rw [← hv, Op.run_subtract hns, Op.run_subtract hms, hperm.sum_eq]
  | divide =>
    cases hreordering with
    | all hcommutes _ => cases hcommutes
    | others hperm => rw [← hv, Op.run_divide hns, Op.run_divide hms, hperm.prod_eq]

end Operators

/-! ## Operators on expressions -/

section Evaluation

variable {functions : FunctionTable} {depth : Nat} {op : Op} {es fs : List Expr} {v : Expr}

/-- Expressions have values if each of them has one. -/
theorem reduceAll_eq_ok_iff {one : Expr → Except Stop Expr} {vs : List Expr} :
    reduceAll one es = .ok vs ↔ List.Forall₂ (fun e v => one e = .ok v) es vs := by
  induction es generalizing vs with
  | nil => cases vs <;> simp [reduceAll]
  | cons e es ih =>
    simp only [reduceAll, bind_cons_eq_ok_iff, List.forall₂_cons_left_iff, ih]

theorem reduce_apply_reordering {ρ : Scopes} (h : op.Reordering es fs)
    (hv : reduce functions depth (.apply op es) ρ = .ok v) :
    reduce functions depth (.apply op fs) ρ = .ok v := by
  cases depth with
  | zero => cases hv
  | succ depth =>
    rw [reduce] at hv ⊢
    rcases hvs : reduceAll (reduce functions depth · ρ) es with stop | vs
    · rw [hvs] at hv
      cases hv
    · obtain ⟨ws, hws, hreordering⟩ := h.exists_forall₂ (reduceAll_eq_ok_iff.1 hvs)
      rw [hvs] at hv
      rw [reduceAll_eq_ok_iff.2 hws]
      exact Op.run_reordering hreordering hv

end Evaluation

/-- If an operator on its operands has a value, in any environment that programs build, then
    it has the same value, within the same budget, on the operands in any other order that
    keeps the first one in its place where the operator starts from it. -/
theorem evaluate_apply_reordered (functions : FunctionTable) (hfunctions : functions.plain = true)
    {s : Store} {l : Loc} {ρ : Scopes} (hl : s.Represents l ρ) {op : Op} {es fs : List Expr}
    (hes : ∀ e ∈ es, e.plain = true) (h : op.Reordering es fs) {depth : Nat} {v : Expr}
    (hv : (evaluate functions depth (.apply op es) l s).1 = .ok v) :
    (evaluate functions depth (.apply op fs) l s).1 = .ok v := by
  have hfs : ∀ f ∈ fs, f.plain = true := fun f hf => hes f (h.perm.mem_iff.2 hf)
  have hplain {gs : List Expr} (hgs : ∀ g ∈ gs, g.plain = true) :
      (Expr.apply op gs).plain = true := Expr.plainAll_iff.2 hgs
  rw [agreesAt hfunctions depth (hplain hes) hl] at hv
  rw [agreesAt hfunctions depth (hplain hfs) hl]
  exact reduce_apply_reordering h hv

/-- A division and a sum with an operand that puts a scope on the environment and leaves it
    by a call, while the others refer to the name that this scope binds. -/
theorem evaluate_apply_reordered_letBetween :
    let functions : FunctionTable := ⟨[("f", ⟨["x"], [.apply .add [.var "x", .var "x"]]⟩)]⟩
    let e : Expr := .letIn [("z", .apply .subtract [.int 0, .var "z"])] [.call "f" [.var "z"]]
    let es : List Expr := [.var "z", e, .apply .multiply [.var "z", .int 2]]
    let s : Store := ⟨#[[[("w", .int 3)]], [[("z", .deferred (.var "w") 0)], [("z", .empty)]]]⟩
    let ρ : Scopes := [[("z", .closure (.var "w") [[("w", .plain (.int 3))]])],
      [("z", .plain .empty)]]
    (functions.plain = true ∧ s.Represents 1 ρ ∧ ∀ e ∈ .int 500 :: es, e.plain = true) ∧
      ((evaluate functions 14 (.apply .divide (.int 500 :: es)) 1 s).1 = .ok (.int (-4)) ∧
        (evaluate functions 14 (.apply .divide (.int 500 :: es.reverse)) 1 s).1 = .ok (.int (-4))) ∧
      ((evaluate functions 14 (.apply .add es) 1 s).1 = .ok (.int 3) ∧
        (evaluate functions 14 (.apply .add es.reverse) 1 s).1 = .ok (.int 3)) := by
  intro functions e es s ρ
  have hs : s.Represents 1 ρ := by
    refine ⟨by decide, .cons (.cons ?_ .nil) (.cons (.cons (.plain rfl) .nil) .nil)⟩
    exact .closure rfl (by decide) (.cons (.cons (.plain rfl) .nil) .nil)
  have hplain : ∀ e ∈ .int 500 :: es, e.plain = true := Expr.plainAll_iff.1 rfl
  have hperm : es.Perm es.reverse := es.reverse_perm.symm
  have hdivide :
      (evaluate functions 14 (.apply .divide (.int 500 :: es)) 1 s).1 = .ok (.int (-4)) := by
    unfold es e functions s
    cbv
  have hadd : (evaluate functions 14 (.apply .add es) 1 s).1 = .ok (.int 3) := by
    unfold es e functions s
    cbv
  exact ⟨⟨rfl, hs, hplain⟩,
    ⟨hdivide, evaluate_apply_reordered functions rfl hs hplain (.others hperm) hdivide⟩,
    hadd, evaluate_apply_reordered functions rfl hs (List.forall_mem_cons.1 hplain).2
      (.all rfl hperm) hadd⟩

end LazyLisp
