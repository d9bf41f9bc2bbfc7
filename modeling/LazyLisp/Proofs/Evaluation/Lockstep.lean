import LazyLisp.Proofs.Evaluation.Operators
import LazyLisp.Proofs.Evaluation.Resolution
import LazyLisp.Proofs.Expr.Free

/-!
# Reductions in lockstep

Two reductions, each of an expression in its own scopes and with its own
functions, that take the same way: whenever one reduces an operand, enters a
body or follows a reference, so does the other. Then they have the same nesting,
and their outcomes can be compared by comparing them where they end.

What is proved here once is the induction over the nesting (`Lockstep.holds`).
It takes two things:

* a `Comparison` of outcomes, which may be equality, and may be less than that,
  as long as it goes through sequences of computations;
* a relation of what is reduced, `R e ρ e' ρ'`, with a proof that a single step
  keeps it (`Lockstep`): either the outcomes are seen to compare at once, as where
  both sides end, or both go on with what is related again.

The errors of scope are those that depend on what names and functions there are,
so these the relation has to answer for; all the others come from values, and are
compared here (`InScope`).

Where outcomes are compared for equality, the step of an expression that is the same
on both sides is always the same: it is enough that its free names lead to what is
related (`inStep_same`). What is left for a relation to say is where the two sides
differ.
-/

namespace LazyLisp

/-! ## Errors of scope -/

section InScope

variable {α β : Type}

/-- The outcome is no error of scope. -/
def InScope (r : Except Stop α) : Prop :=
  ∀ cause, r = .error (.error cause) → cause.scoping = false

theorem inScope_ok (a : α) : InScope (.ok a : Except Stop α) := by
  intro cause h
  cases h

theorem inScope_tooDeep : InScope (.error .tooDeep : Except Stop α) := by
  intro cause h
  cases h

theorem inScope_raise {e : EvalError} (he : e.scoping = false) :
    InScope (.error (raise e) : Except Stop α) := by
  intro cause h
  rw [Except.error.injEq, raise] at h
  split at h
  · cases h
    exact he
  · cases h

theorem InScope.bind {r : Except Stop α} {f : α → Except Stop β} (hr : InScope r)
    (hf : ∀ a, InScope (f a)) : InScope (r >>= f) := by
  rcases r with stop | a
  · intro cause h
    cases h
    exact hr cause rfl
  · exact hf a

/-- What values deliver is in scope. -/
theorem Delivers.inScope {P : α → Prop} {r : Except Stop α} (h : Delivers P r) : InScope r := by
  cases h with
  | ok _ => exact inScope_ok _
  | error hcause => exact inScope_raise hcause

end InScope

/-! ## Comparisons of outcomes -/

/-- A way to compare the outcomes of two computations. It may also be a property
    of the first of them only. -/
structure Comparison where
  /-- The outcomes compare. -/
  Holds {α : Type} : Except Stop α → Except Stop α → Prop
  refl {α : Type} {r : Except Stop α} : InScope r → Holds r r
  bind {α β : Type} {r r' : Except Stop α} {f f' : α → Except Stop β} :
    Holds r r' → (∀ a, Holds (f a) (f' a)) → Holds (r >>= f) (r' >>= f')

namespace Comparison

variable (C : Comparison) {one one' : Expr → Except Stop Expr} {es es' : List Expr}

theorem reduceAll (h : List.Forall₂ (fun e e' => C.Holds (one e) (one' e')) es es') :
    C.Holds (reduceAll one es) (reduceAll one' es') := by
  induction h with
  | nil => exact C.refl (inScope_ok _)
  | cons he _ ih => exact C.bind he fun v => C.bind ih fun vs => C.refl (inScope_ok (v :: vs))

theorem reduceBody (h : List.Forall₂ (fun e e' => C.Holds (one e) (one' e')) es es') :
    C.Holds (reduceBody one es) (reduceBody one' es') := by
  induction h with
  | nil => exact C.refl (inScope_raise rfl)
  | cons he hes ih =>
    cases hes with
    | nil => exact he
    | cons _ _ => exact C.bind he fun _ => ih

end Comparison

/-! ## Lockstep -/

section Lockstep

variable (functions functions' : FunctionTable) (C : Comparison)
  (R : Expr → Scopes → Expr → Scopes → Prop)

/-- What one step does with an expression in its scopes and with another in
    other scopes: their outcomes are seen to compare, whatever the budget, or it
    goes on with both in the same way, with what is related by `R`. -/
inductive InStep : Expr → Scopes → Expr → Scopes → Prop
  | settled {e e' : Expr} {ρ ρ' : Scopes} :
    (∀ depth, C.Holds (reduce functions (depth + 1) e ρ) (reduce functions' (depth + 1) e' ρ')) →
    InStep e ρ e' ρ'
  | var {x x' : String} {e e' : Expr} {ρ ρ' σ σ' : Scopes} :
    ρ.resolve x = some (e, σ) → ρ'.resolve x' = some (e', σ') → R e σ e' σ' →
    InStep (.var x) ρ (.var x') ρ'
  | list {es es' : List Expr} {ρ ρ' : Scopes} :
    List.Forall₂ (R · ρ · ρ') es es' → InStep (.list es) ρ (.list es') ρ'
  | part {which : Part} {e e' : Expr} {ρ ρ' : Scopes} :
    R e ρ e' ρ' → InStep (.part which e) ρ (.part which e') ρ'
  | apply {op : Op} {es es' : List Expr} {ρ ρ' : Scopes} :
    List.Forall₂ (R · ρ · ρ') es es' → InStep (.apply op es) ρ (.apply op es') ρ'
  | ite {c t e c' t' e' : Expr} {ρ ρ' : Scopes} :
    R c ρ c' ρ' → R t ρ t' ρ' → R e ρ e' ρ' → InStep (.ite c t e) ρ (.ite c' t' e') ρ'
  | letIn {bs bs' : Scope} {es es' : List Expr} {ρ ρ' : Scopes} :
    List.Forall₂ (R · (plainScope bs :: ρ) · (plainScope bs' :: ρ')) es es' →
    InStep (.letIn bs es) ρ (.letIn bs' es') ρ'
  | call {f f' : String} {g g' : Function} {es es' : List Expr} {ρ ρ' : Scopes} :
    functions.get? f = some g → functions'.get? f' = some g' →
    g.arity = es.length → g'.arity = es'.length →
    List.Forall₂ (R · [closureScope g.parameters es ρ] · [closureScope g'.parameters es' ρ'])
      g.body g'.body →
    InStep (.call f es) ρ (.call f' es') ρ'

/-- Related expressions in their scopes take every step together. -/
def Lockstep : Prop :=
  ∀ ⦃e : Expr⦄ ⦃ρ : Scopes⦄ ⦃e' : Expr⦄ ⦃ρ' : Scopes⦄, R e ρ e' ρ' →
    InStep functions functions' C R e ρ e' ρ'

variable {functions functions' C R}

/-- A step with one more unit on both sides: the outcomes compare, if they do
    where the outcomes are seen at once, for what the step goes on with, and for
    the bodies that it enters. -/
theorem InStep.succ {C' : Comparison} {depth depth' : Nat} {e e' : Expr} {ρ ρ' : Scopes}
    (h : InStep functions functions' C R e ρ e' ρ')
    (hsettled :
      (∀ n, C.Holds (reduce functions (n + 1) e ρ) (reduce functions' (n + 1) e' ρ')) →
        C'.Holds (reduce functions (depth + 1) e ρ) (reduce functions' (depth' + 1) e' ρ'))
    (hnext : ∀ {e e' : Expr} {ρ ρ' : Scopes}, R e ρ e' ρ' →
      C'.Holds (reduce functions depth e ρ) (reduce functions' depth' e' ρ'))
    (henter : ∀ {es es' : List Expr} {ρ ρ' : Scopes}, List.Forall₂ (R · ρ · ρ') es es' →
      C'.Holds (enterBody functions depth es ρ) (enterBody functions' depth' es' ρ')) :
    C'.Holds (reduce functions (depth + 1) e ρ) (reduce functions' (depth' + 1) e' ρ') := by
  cases h with
  | settled h => exact hsettled h
  | var hx hx' hσ =>
    rw [reduce_var_of_some hx, reduce_var_of_some hx']
    exact hnext hσ
  | list hes =>
    exact C'.bind (C'.reduceAll (hes.imp fun _ _ => hnext)) fun vs => C'.refl (inScope_ok _)
  | part he => exact C'.bind (hnext he) fun v => C'.refl (Part.delivers_run _ v).inScope
  | apply hes =>
    refine C'.bind (C'.reduceAll (hes.imp fun _ _ => hnext)) fun vs => ?_
    exact C'.refl (Op.delivers_run _ vs).inScope
  | ite hc ht he =>
    refine C'.bind (hnext hc) fun v => ?_
    split
    · exact hnext ht
    · exact hnext he
    · exact C'.refl (inScope_raise rfl)
  | letIn hes => exact C'.reduceBody (hes.imp fun _ _ => hnext)
  | call hf hf' harity harity' hbody =>
    rw [reduce_call hf harity, reduce_call hf' harity']
    exact henter hbody

/-- What is related and takes every step together has outcomes that compare,
    whatever the budget. -/
theorem Lockstep.holds (h : Lockstep functions functions' C R) (depth : Nat) {e e' : Expr}
    {ρ ρ' : Scopes} (hR : R e ρ e' ρ') :
    C.Holds (reduce functions depth e ρ) (reduce functions' depth e' ρ') := by
  -- A call takes two units of the budget at once, so that the induction has to
  -- reach below the predecessor.
  induction depth using Nat.strongRecOn generalizing e ρ e' ρ' with
  | ind depth ih =>
    rcases depth with _ | depth
    · exact C.refl inScope_tooDeep
    · refine (h hR).succ (fun hsettled => hsettled depth) (ih depth (Nat.lt_succ_self depth)) ?_
      intro es es' ρ ρ' hes
      rcases depth with _ | depth
      · exact C.refl inScope_tooDeep
      · exact C.reduceBody (hes.imp fun _ _ => ih depth (by omega))

end Lockstep

/-! ## Equal outcomes -/

/-- Outcomes compared for equality. -/
def Comparison.equality : Comparison where
  Holds r r' := r = r'
  refl _ := rfl
  bind hr hf := by
    rw [hr, funext hf]

section Equality

variable {functions functions' : FunctionTable} {R : Expr → Scopes → Expr → Scopes → Prop}
  {e e' : Expr} {ρ ρ' : Scopes}

/-- The sides of a step may be exchanged. -/
theorem InStep.symm (h : InStep functions functions' .equality R e ρ e' ρ') :
    InStep functions' functions .equality (fun e' ρ' e ρ => R e ρ e' ρ') e' ρ' e ρ := by
  cases h with
  | settled h => exact .settled fun depth => (h depth).symm
  | var hx hx' hσ => exact .var hx' hx hσ
  | list hes => exact .list hes.flip
  | part he => exact .part he
  | apply hes => exact .apply hes.flip
  | ite hc ht he => exact .ite hc ht he
  | letIn hes => exact .letIn hes.flip
  | call hf hf' harity harity' hbody => exact .call hf' hf harity' harity hbody.flip

theorem inStep_var {x : String} (h : Scopes.Lead R (ρ.resolve x) (ρ'.resolve x)) :
    InStep functions functions' .equality R (.var x) ρ (.var x) ρ' := by
  rcases (Scopes.lead_iff R _ _).1 h with ⟨hρ, hρ'⟩ | ⟨_, _, _, _, hR, hρ, hρ'⟩
  · refine .settled fun depth => ?_
    exact (reduce_var_of_none hρ depth).trans (reduce_var_of_none hρ' depth).symm
  · exact .var hρ hρ' hR

/-- A call of what one name stands for in two tables: of no function, or of two that take as
    many arguments, and whose bodies are related where they are entered. -/
theorem inStep_call_of_rel {f : String} {arguments arguments' : List Expr}
    (hlength : arguments.length = arguments'.length)
    (hf : Option.Rel (fun g g' => g.arity = g'.arity ∧ (g.arity = arguments.length →
        List.Forall₂ (R · [closureScope g.parameters arguments ρ] ·
          [closureScope g'.parameters arguments' ρ']) g.body g'.body))
      (functions.get? f) (functions'.get? f)) :
    InStep functions functions' .equality R (.call f arguments) ρ (.call f arguments') ρ' := by
  generalize hg : functions.get? f = g at hf
  generalize hg' : functions'.get? f = g' at hf
  cases hf with
  | none =>
    refine .settled fun depth => ?_
    exact (reduce_call_of_none hg depth ρ).trans (reduce_call_of_none hg' depth ρ').symm
  | @some g g' h =>
    obtain ⟨harities, hbody⟩ := h
    by_cases harity : g.arity = arguments.length
    · have harity' : g'.arity = arguments'.length := by omega
      exact .call hg hg' harity harity' (hbody harity)
    · have harity' : g'.arity ≠ arguments'.length := by omega
      refine .settled fun depth => (reduce_call_of_ne hg harity depth ρ).trans ?_
      rw [harities, hlength]
      exact (reduce_call_of_ne hg' harity' depth ρ').symm

/-! ### The same expression on both sides

All that is asked here of the relation is that it has one expression on both sides, if
the free names of the expression lead to what is related. -/

section Same

variable (hsame : ∀ {e : Expr} {ρ ρ' : Scopes},
  (∀ x ∈ e.free, Scopes.Lead R (ρ.resolve x) (ρ'.resolve x)) → R e ρ e ρ')

include hsame

/-- A body, after bindings of the same names to what is related. -/
theorem inStep_letIn {bs bs' : Scope} {body : List Expr}
    (hbs : List.Forall₂ (SameName (R · ρ · ρ')) bs bs')
    (hbody : ∀ x ∈ Expr.freeAll body, x ∉ bs.map Prod.fst →
      Scopes.Lead R (ρ.resolve x) (ρ'.resolve x)) :
    InStep functions functions' .equality R (.letIn bs body) ρ (.letIn bs' body) ρ' :=
  .letIn <| List.forall₂_same.2 fun _ he => hsame fun x hx =>
    .letIn hbs (hbody x (Expr.free_subset_freeAll he hx))

/-- A call of one function, with arguments that are related. -/
theorem inStep_call {f : String} {arguments arguments' : List Expr}
    (harguments : List.Forall₂ (R · ρ · ρ') arguments arguments') :
    InStep functions functions .equality R (.call f arguments) ρ (.call f arguments') ρ' := by
  refine inStep_call_of_rel harguments.length_eq ?_
  rcases functions.get? f with _ | function
  · exact .none
  · refine .some ⟨rfl, fun _ => List.forall₂_same.2 fun e _ => ?_⟩
    exact hsame fun x _ => .call harguments function.parameters x

/-- One expression, whose free names lead to what is related, where calls with related
    arguments take the next step together. -/
theorem inStep_same
    (hcall : ∀ {f : String} {arguments : List Expr},
      List.Forall₂ (R · ρ · ρ') arguments arguments →
        InStep functions functions' .equality R (.call f arguments) ρ (.call f arguments) ρ')
    (h : ∀ x ∈ e.free, Scopes.Lead R (ρ.resolve x) (ρ'.resolve x)) :
    InStep functions functions' .equality R e ρ e ρ' := by
  have hall {es : List Expr} (hes : Expr.freeAll es ⊆ e.free) : List.Forall₂ (R · ρ · ρ') es es :=
    List.forall₂_same.2 fun f hf =>
      hsame fun x hx => h x (hes (Expr.free_subset_freeAll hf hx))
  cases e with
  | int _ | bool _ | str _ | defun _ _ _ | empty | deferred _ _ => exact .settled fun _ => rfl
  | var x => exact inStep_var (h x (List.mem_singleton_self x))
  | list es => exact .list (hall (List.Subset.refl _))
  | part which e => exact .part (hsame h)
  | apply op es => exact .apply (hall (List.Subset.refl _))
  | ite c t e =>
    simp only [Expr.free, List.forall_mem_append] at h
    exact .ite (hsame h.1.1) (hsame h.1.2) (hsame h.2)
  | letIn bindings body =>
    refine inStep_letIn hsame (List.forall₂_same.2 fun b hb => .intro ?_) fun x hx hfree => ?_
    · exact hsame fun x hx => h x (Expr.free_subset_letIn hb body hx)
    · exact h x (Expr.mem_free_letIn hx hfree)
  | call f arguments => exact hcall (hall (List.Subset.refl _))

/-- A name leads to what is related, where it leads to the same. -/
theorem Scopes.Lead.refl (x : String) (ρ : Scopes) : Lead R (ρ.resolve x) (ρ.resolve x) := by
  rcases hx : ρ.resolve x with _ | ⟨e, σ⟩
  · exact .nowhere
  · have := sizeOf_lt_of_resolve hx
    exact .to (hsame fun y _ => Lead.refl y σ)
termination_by sizeOf ρ

end Same

end Equality

end LazyLisp
