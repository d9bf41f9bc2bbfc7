import LazyLisp.Proofs.Evaluation.Depth
import LazyLisp.Proofs.Expr.Every
import LazyLisp.Proofs.Reading.Numerals

/-!
# Termination

Only recursive functions can use up every budget: if no function of the table calls
itself, be it through others, then every evaluation ends, with a value or with an error
(`evaluate_ends`). An error is meant as it is raised, so that there is one more way to
end: without a message, if the digit limit forbids to write it.

Nothing about an expression gets smaller when a name in it is followed. What ends is said
in terms of what the names stand for instead: scopes are *founded* (`Founded`) if all
that their names lead to ends, and a function *returns* (`Returns`) if its body ends in all
founded scopes. An expression then ends in founded scopes if all the functions called in it
return (`ends_of_callees`), which is an induction over the expression alone: a `let` and a
call extend the scopes by parts of it. That functions return follows along the calls,
and that scopes are founded along the references.
-/

namespace LazyLisp

open Filter Scopes

/-! ## Calls -/

namespace Expr

mutual

/-- The functions that are called anywhere in the expression. -/
def callees : Expr → List String
  | list es => calleesAll es
  | part _ e => callees e
  | apply _ es => calleesAll es
  | ite c t e => callees c ++ callees t ++ callees e
  | letIn bs es => calleesBound bs ++ calleesAll es
  | call f es => f :: calleesAll es
  | defun _ _ es => calleesAll es
  | deferred e _ => callees e
  | int _ | bool _ | str _ | var _ | empty => []

/-- The functions that are called anywhere in the expressions. -/
def calleesAll : List Expr → List String
  | [] => []
  | e :: es => callees e ++ calleesAll es

/-- The functions that are called anywhere in the bound expressions. -/
def calleesBound : List (String × Expr) → List String
  | [] => []
  | (_, e) :: bs => callees e ++ calleesBound bs

end

variable {f : String}

theorem mem_calleesAll {es : List Expr} : f ∈ calleesAll es ↔ ∃ e ∈ es, f ∈ e.callees := by
  induction es with
  | nil => simp [calleesAll]
  | cons e es ih => rw [calleesAll, List.mem_append, ih, List.exists_mem_cons_iff]

theorem mem_calleesBound {bs : List (String × Expr)} :
    f ∈ calleesBound bs ↔ ∃ b ∈ bs, f ∈ b.2.callees := by
  induction bs with
  | nil => simp [calleesBound]
  | cons b bs ih => rw [calleesBound, List.mem_append, ih, List.exists_mem_cons_iff]

end Expr

/-- The body of the function `f` contains a call of `g` somewhere. -/
def FunctionTable.Calls (functions : FunctionTable) (f g : String) : Prop :=
  ∃ function, functions.get? f = some function ∧ g ∈ Expr.calleesAll function.body

/-! ## Ends -/

section Ended

variable {α β : Type}

/-- The outcome is a result or an error, and not want of depth. -/
inductive Ended : Except Stop α → Prop
  | ok (a : α) : Ended (.ok a)
  | error (cause : EvalError) : Ended (.error (raise cause))

theorem Ended.bind {r : Except Stop α} {f : α → Except Stop β} (hr : Ended r)
    (hf : ∀ a, Ended (f a)) : Ended (r >>= f) := by
  cases hr with
  | ok a => exact hf a
  | error cause => exact .error cause

theorem Ended.ne_tooDeep {r : Except Stop α} (hr : Ended r) : r ≠ .error .tooDeep := by
  cases hr with
  | ok a => simp
  | error cause =>
    rw [raise]
    split <;> simp

theorem Delivers.ended {P : α → Prop} {r : Except Stop α} (h : Delivers P r) : Ended r := by
  cases h with
  | ok _ => exact .ok _
  | error _ => exact .error _

variable {one : Expr → Except Stop Expr} {es : List Expr}

theorem ended_reduceAll (h : ∀ e ∈ es, Ended (one e)) : Ended (reduceAll one es) := by
  induction es with
  | nil => exact .ok _
  | cons e es ih =>
    rw [List.forall_mem_cons] at h
    exact h.1.bind fun v => (ih h.2).bind fun vs => .ok (v :: vs)

theorem ended_reduceBody (h : ∀ e ∈ es, Ended (one e)) : Ended (reduceBody one es) := by
  induction es with
  | nil => exact .error _
  | cons e es ih =>
    rw [List.forall_mem_cons] at h
    cases es with
    | nil => exact h.1
    | cons f fs => exact h.1.bind fun _ => ih h.2

end Ended

section Ends

variable (functions : FunctionTable)

/-- The expression ends in the scopes, with every sufficient budget. -/
def Ends (e : Expr) (ρ : Scopes) : Prop := ∀ᶠ depth in atTop, Ended (reduce functions depth e ρ)

/-- Whatever the names of the scopes lead to ends. -/
def Founded (ρ : Scopes) : Prop := ∀ x e σ, ρ.resolve x = some (e, σ) → Ends functions e σ

/-- The body of the function ends in all founded scopes. -/
def Returns (f : String) : Prop :=
  ∀ function, functions.get? f = some function → ∀ ρ, Founded functions ρ →
    ∀ e ∈ function.body, Ends functions e ρ

variable {functions} {e : Expr} {es : List Expr} {ρ : Scopes}

theorem eventually_of_succ {P : Nat → Prop} (h : ∀ᶠ n in atTop, P (n + 1)) :
    ∀ᶠ n in atTop, P n := by
  rw [← map_add_atTop_eq_nat 1]
  exact eventually_map.2 h

theorem ends_all (h : ∀ e ∈ es, Ends functions e ρ) :
    ∀ᶠ depth in atTop, ∀ e ∈ es, Ended (reduce functions depth e ρ) :=
  (eventually_all_finite es.finite_toSet).2 h

theorem Founded.letIn (hρ : Founded functions ρ) {bs : Scope}
    (hbs : ∀ b ∈ bs, Ends functions b.2 ρ) : Founded functions (plainScope bs :: ρ) := by
  intro x e σ h
  rw [resolve_letIn] at h
  split at h
  · exact hρ x e σ h
  · next hlookup =>
    cases h
    exact hbs _ (mem_of_lookup hlookup)

theorem founded_call {arguments : List Expr} (h : ∀ e ∈ arguments, Ends functions e ρ)
    (parameters : List String) : Founded functions [closureScope parameters arguments ρ] := by
  intro x e σ hx
  rw [resolve_call, Option.map_eq_some_iff] at hx
  obtain ⟨_, hlookup, heq⟩ := hx
  cases heq
  exact h _ (List.of_mem_zip (mem_of_lookup hlookup)).2

end Ends

/-! ## Expressions -/

section Expressions

variable {functions : FunctionTable}

/-- In founded scopes, an expression ends if the functions called in it return. -/
theorem ends_of_callees {e : Expr} {ρ : Scopes} (hρ : Founded functions ρ)
    (h : ∀ f ∈ e.callees, Returns functions f) : Ends functions e ρ := by
  induction e generalizing ρ with
  | int _ | bool _ | str _ => exact eventually_of_succ (.of_forall fun _ => .ok _)
  | defun _ _ _ | empty | deferred _ _ => exact eventually_of_succ (.of_forall fun _ => .error _)
  | var x =>
    refine eventually_of_succ ?_
    rcases hx : ρ.resolve x with _ | ⟨e, σ⟩
    · simp only [reduce_var_of_none hx]
      exact .of_forall fun _ => .error _
    · simp only [reduce_var_of_some hx]
      exact hρ x e σ hx
  | list es ih =>
    have hes := ends_all fun e he => ih e he hρ fun f hf => h f (Expr.mem_calleesAll.2 ⟨e, he, hf⟩)
    exact eventually_of_succ (hes.mono fun _ hes => (ended_reduceAll hes).bind fun _ => .ok _)
  | part which e ih =>
    refine eventually_of_succ ((ih hρ h).mono fun _ he => he.bind fun v => ?_)
    exact (which.delivers_run v).ended
  | apply op es ih =>
    have hes := ends_all fun e he => ih e he hρ fun f hf => h f (Expr.mem_calleesAll.2 ⟨e, he, hf⟩)
    refine eventually_of_succ (hes.mono fun _ hes => (ended_reduceAll hes).bind fun vs => ?_)
    exact (op.delivers_run vs).ended
  | ite c t e ihc iht ihe =>
    simp only [Expr.callees, List.forall_mem_append] at h
    refine eventually_of_succ ?_
    filter_upwards [ihc hρ h.1.1, iht hρ h.1.2, ihe hρ h.2] with depth hc ht he
    refine hc.bind fun v => ?_
    split
    · exact ht
    · exact he
    · exact .error _
  | letIn bs es ihbs ihes =>
    simp only [Expr.callees, List.forall_mem_append] at h
    -- What is bound is a part of the expression, so that it ends where the `let` is.
    have hbs : Founded functions (plainScope bs :: ρ) := hρ.letIn fun b hb =>
      ihbs b hb hρ fun f hf => h.1 f (Expr.mem_calleesBound.2 ⟨b, hb, hf⟩)
    have hes := ends_all fun e he =>
      ihes e he hbs fun f hf => h.2 f (Expr.mem_calleesAll.2 ⟨e, he, hf⟩)
    exact eventually_of_succ (hes.mono fun _ => ended_reduceBody)
  | call f es ih =>
    simp only [Expr.callees, List.forall_mem_cons] at h
    refine eventually_of_succ ?_
    rcases hf : functions.get? f with _ | function
    · simp only [reduce_call_of_none hf]
      exact .of_forall fun _ => .error _
    · by_cases harity : function.arity = es.length
      · simp only [reduce_call hf harity]
        -- The body is no part of the expression, but the arguments that it is
        -- reduced with are, and the function is known to return.
        have hscope : Founded functions [closureScope function.parameters es ρ] :=
          founded_call (fun e he => ih e he hρ fun g hg =>
            h.2 g (Expr.mem_calleesAll.2 ⟨e, he, hg⟩)) function.parameters
        have hbody := ends_all (h.1 function hf _ hscope)
        exact eventually_of_succ (hbody.mono fun _ => ended_reduceBody)
      · simp only [reduce_call_of_ne hf harity]
        exact .of_forall fun _ => .error _

end Expressions

/-! ## Without recursion -/

section Acyclic

variable {functions : FunctionTable}

theorem FunctionTable.mem_names {f : String} {function : Function}
    (hf : functions.get? f = some function) : f ∈ functions.names :=
  List.mem_map.2 ⟨(f, function), mem_of_lookup hf, rfl⟩

/-- If no function calls itself, be it through others, then all functions return. -/
theorem returns_of_acyclic (h : ∀ f, ¬Relation.TransGen functions.Calls f f) (f : String) :
    Returns functions f := by
  intro function hf
  -- A relation without cycles is well-founded where it is finite, as among the names
  -- of the table.
  have : IsStrictOrder String (Function.swap (Relation.TransGen functions.Calls)) :=
    { irrefl := h, trans := fun _ _ _ hfg hgh => hgh.trans hfg }
  have hfinite : {f | f ∈ functions.names}.Finite := functions.names.finite_toSet
  have hwf := hfinite.wellFoundedOn (r := Function.swap (Relation.TransGen functions.Calls))
  have hreturns := hwf.induction (FunctionTable.mem_names hf) (P := Returns functions) ?_
  · exact hreturns function hf
  · intro f _ ih function hf ρ hρ e he
    refine ends_of_callees hρ fun g hg callee hcallee => ?_
    have hcalls : functions.Calls f g := ⟨function, hf, Expr.mem_calleesAll.2 ⟨e, he, hg⟩⟩
    exact ih g (FunctionTable.mem_names hcallee) (.single hcalls) callee hcallee

/-- If all functions return, then all scopes are founded. -/
theorem founded_of_returns (h : ∀ f, Returns functions f) (ρ : Scopes) : Founded functions ρ := by
  intro x e σ hx
  have := sizeOf_lt_of_resolve hx
  exact ends_of_callees (founded_of_returns h σ) fun f _ => h f
termination_by sizeOf ρ

end Acyclic

/-- Without recursive functions, every evaluation ends: with a value, or with an
    error as it is raised. -/
theorem evaluate_ends (functions : FunctionTable) (hfunctions : functions.plain = true)
    (hacyclic : ∀ f, ¬Relation.TransGen functions.Calls f f) {e : Expr} (he : e.plain = true)
    {s : Store} {l : Loc} {ρ : Scopes} (hl : s.Represents l ρ) :
    ∃ outcome, EndsWith (fun depth => (evaluate functions depth e l s).1) outcome ∧
      ((∃ v, outcome = .ok v) ∨ ∃ cause, outcome = .error (raise cause)) := by
  have hreturns := returns_of_acyclic hacyclic
  have hends : Ends functions e ρ :=
    ends_of_callees (founded_of_returns hreturns ρ) fun f _ => hreturns f
  obtain ⟨depth, hended⟩ := hends.exists
  refine ⟨reduce functions depth e ρ, ?_, ?_⟩
  · exact endsWith_evaluate hfunctions he hl (agreesAt hfunctions depth he hl) hended.ne_tooDeep
  · generalize reduce functions depth e ρ = outcome at hended
    cases hended with
    | ok v => exact .inl ⟨v, rfl⟩
    | error cause => exact .inr ⟨cause, rfl⟩

/-- Calls of one function inside of its own arguments are no recursion. -/
theorem evaluate_ends_nestedCalls :
    let functions : FunctionTable :=
      ⟨[("f", ⟨["x"], [.call "g" [.var "x", .call "g" [.var "x", .var "x"]]]⟩),
        ("g", ⟨["x", "y"], [.apply .add [.var "x", .var "y"]]⟩)]⟩
    let e : Expr := .call "f" [.call "f" [.call "f" [.var "z"]]]
    let s : Store := ⟨#[[[("w", .int 1)]], [[("z", .deferred (.call "f" [.var "w"]) 0)]]]⟩
    let ρ : Scopes := [[("z", .closure (.call "f" [.var "w"]) [[("w", .plain (.int 1))]])]]
    (functions.plain = true ∧ (∀ f, ¬Relation.TransGen functions.Calls f f) ∧ e.plain = true ∧
        s.Represents 1 ρ) ∧
      ∃ outcome, EndsWith (fun depth => (evaluate functions depth e 1 s).1) outcome ∧
        ((∃ v, outcome = .ok v) ∨ ∃ cause, outcome = .error (raise cause)) := by
  intro functions e s ρ
  have hcalls (f g : String) (h : functions.Calls f g) : f = "f" ∧ g = "g" := by
    obtain ⟨function, hf, hg⟩ := h
    have hmem := mem_of_lookup hf
    simp only [functions, List.mem_cons, Prod.mk.injEq, List.not_mem_nil, or_false] at hmem
    rcases hmem with ⟨rfl, rfl⟩ | ⟨rfl, rfl⟩
    · exact ⟨rfl, by simpa [Expr.calleesAll, Expr.callees] using hg⟩
    · simp [Expr.calleesAll, Expr.callees] at hg
  have hacyclic (f : String) : ¬Relation.TransGen functions.Calls f f := by
    intro h
    obtain ⟨_, hhead, -⟩ := Relation.TransGen.head'_iff.1 h
    obtain ⟨_, -, htail⟩ := Relation.TransGen.tail'_iff.1 h
    have hfg : "f" = "g" := (hcalls _ _ hhead).1.symm.trans (hcalls _ _ htail).2
    exact absurd hfg (by decide)
  have hs : s.Represents 1 ρ := by
    refine ⟨by decide, .cons (.cons ?_ .nil) .nil⟩
    exact .closure rfl (by decide) (.cons (.cons (.plain rfl) .nil) .nil)
  exact ⟨⟨rfl, hacyclic, rfl, hs⟩, evaluate_ends functions rfl hacyclic rfl hs⟩

/-- A condition that is no truth value, and too long to be written. -/
theorem reduce_ite_unwritable {n : Int} (hn : 10 ^ digitLimit ≤ (n * n).natAbs) (t e : Expr)
    (ρ : Scopes) :
    reduce .empty 3 (.ite (.apply .multiply [.int n, .int n]) t e) ρ =
      .error (.digits .writing) := by
  have hfits : fitsDigitLimit (1 * n * n) = false := by
    rw [Bool.eq_false_iff, ne_eq, fitsDigitLimit_iff, one_mul]
    omega
  have hraise : raise (.notBoolean (.int (1 * n * n))) = .digits .writing := by
    rw [raise, EvalError.writable, Expr.writable, hfits]
    rfl
  rw [← hraise]
  rfl

/-- A condition that is the square of an integer with `2201` digits: no budget lets the
    evaluation end with a value, or with an error that has a message. -/
theorem evaluate_ends_unwritable :
    let n : Int := 10 ^ 2200
    let e : Expr := .ite (.apply .multiply [.int n, .int n]) (.int 1) (.int 2)
    let s : Store := ⟨#[[]]⟩
    (FunctionTable.empty.plain = true ∧
        (∀ f, ¬Relation.TransGen FunctionTable.empty.Calls f f) ∧ e.plain = true ∧
        s.Represents 0 []) ∧
      EndsWith (fun depth => (evaluate .empty depth e 0 s).1) (.error (.digits .writing)) ∧
      ∀ depth, (∀ v, (evaluate .empty depth e 0 s).1 ≠ .ok v) ∧
        ∀ cause, (evaluate .empty depth e 0 s).1 ≠ .error (.error cause) := by
  intro n e s
  have hs : s.Represents 0 [] := ⟨by decide, .nil⟩
  have hacyclic (f : String) : ¬Relation.TransGen FunctionTable.empty.Calls f f := by
    intro h
    obtain ⟨_, ⟨_, hf, -⟩, -⟩ := Relation.TransGen.head'_iff.1 h
    cases hf
  have hn : 10 ^ digitLimit ≤ (n * n).natAbs :=
    calc 10 ^ digitLimit ≤ 10 ^ (2200 + 2200) := Nat.pow_le_pow_right (by decide) (by decide)
      _ = (n * n).natAbs := by
        have hten : Int.natAbs 10 = 10 := rfl
        simp only [n, Int.natAbs_mul, Int.natAbs_pow, pow_add, hten]
  have hvalue : (evaluate .empty 3 e 0 s).1 = .error (.digits .writing) := by
    rw [agreesAt rfl 3 rfl hs]
    exact reduce_ite_unwritable hn _ _ _
  have hends := endsWith_evaluate rfl rfl hs hvalue (by simp)
  refine ⟨⟨rfl, hacyclic, rfl, hs⟩, hends, fun depth => ?_⟩
  rw [evaluate_run_eq rfl rfl hs] at hends
  rw [agreesAt rfl depth rfl hs]
  rcases hends.eq_or_tooDeep depth with hdeep | heq
  · simp [hdeep]
  · simp [heq]

end LazyLisp
