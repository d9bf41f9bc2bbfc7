import LazyLisp.Proofs.Evaluation.Depth
import LazyLisp.Proofs.Evaluation.Values

/-!
# Evaluating once

What a `let` binds and what a call passes is evaluated each time it is referred to. If
it has a value at all, then it could as well be evaluated once, before the `let` or the
call, and be replaced by its value (`evaluate_iff_of_value`). The outcome is the same,
though the depth that it takes is not, as the value takes less than the expression it
is the value of. The difference is bounded, however many references there are: an
expression that is referred to does not see the name that refers to it, so that of
several evaluations of it none is part of another.

Two expressions are *interchangeable*, each in its scopes (`Interchangeable`), if they
are within a certain depth of each other, or are one expression whose free names lead to
what is interchangeable in turn.
-/

namespace LazyLisp

open Scopes

section Interchangeable

variable {functions : FunctionTable} {k : Nat} {e e' : Expr} {ρ ρ' : Scopes}

variable (functions k) in
/-- The expressions, each in its scopes, are the same but for parts that end in the same
    way, with a budget that differs by `k` at most. -/
inductive Interchangeable : Expr → Scopes → Expr → Scopes → Prop
  | near {e e' : Expr} {ρ ρ' : Scopes} :
    Within k (reduce functions · e ρ) (reduce functions · e' ρ') → Interchangeable e ρ e' ρ'
  | same {e : Expr} {ρ ρ' : Scopes} :
    (∀ x ∈ e.free, Lead Interchangeable (ρ.resolve x) (ρ'.resolve x)) → Interchangeable e ρ e ρ'

theorem Interchangeable.refl (e : Expr) (ρ : Scopes) : Interchangeable functions k e ρ e ρ :=
  .same fun x _ => .refl .same x ρ

theorem Interchangeable.within (h : Interchangeable functions k e ρ e' ρ') :
    Within k (reduce functions · e ρ) (reduce functions · e' ρ') := by
  refine within_of_inStep (fun h => ?_) h
  cases h with
  | near h => exact .inl h
  | same h => exact .inr (inStep_same .same (inStep_call .same) h)

/-- Reductions that have both ended with the same are within some depth of each other. -/
theorem exists_within {outcome : Except Stop Expr} (h : EndsWith (reduce functions · e ρ) outcome)
    (h' : EndsWith (reduce functions · e' ρ') outcome) :
    ∃ k, Within k (reduce functions · e ρ) (reduce functions · e' ρ') := by
  obtain ⟨limit, hlimit⟩ := h
  obtain ⟨limit', hlimit'⟩ := h'
  -- The greater of the two budgets is beyond both limits, whatever the smaller one is.
  refine ⟨max limit limit', fun depth depth' hle => ?_⟩
  have heq : reduce functions depth' e ρ = reduce functions depth' e' ρ' :=
    (hlimit depth' (by omega)).trans (hlimit' depth' (by omega)).symm
  constructor
  · dsimp only
    rw [← heq]
    exact reduce_mono (by omega) e ρ
  · dsimp only
    rw [heq]
    exact reduce_mono (by omega) e' ρ'

end Interchangeable

section Replacement

variable {α : Type} {R : α → α → Prop} {as : List α} {i : Nat} {a b : α}

/-- A list compared to the same with one entry replaced. -/
theorem forall₂_set (hR : ∀ c, R c c) (hi : as[i]? = some a) (hab : R a b) :
    List.Forall₂ R as (as.set i b) := by
  induction as generalizing i with
  | nil => simp at hi
  | cons c as ih =>
    rcases i with _ | i
    · rw [List.getElem?_cons_zero, Option.some.injEq] at hi
      subst hi
      exact .cons hab (List.forall₂_same.2 fun c _ => hR c)
    · exact .cons (hR c) (ih hi)

theorem Expr.plainAll_set {es : List Expr} {v : Expr} (hes : plainAll es = true)
    (hv : v.plain = true) (i : Nat) : plainAll (es.set i v) = true := by
  rw [plainAll_iff] at hes ⊢
  intro e he
  rcases List.mem_or_eq_of_mem_set he with he | rfl
  · exact hes e he
  · exact hv

theorem Expr.plainBindings_set {bs : Scope} {v : Expr} (hbs : plainBindings bs = true)
    (hv : v.plain = true) (i : Nat) (x : String) : plainBindings (bs.set i (x, v)) = true := by
  rw [plainBindings_iff] at hbs ⊢
  intro b hb
  rcases List.mem_or_eq_of_mem_set hb with hb | rfl
  · exact hbs b hb
  · exact hv

end Replacement

section Sharing

variable {functions : FunctionTable} {k : Nat} {e e' : Expr} {ρ : Scopes} {i : Nat}

/-- A `let` with one of its bound expressions replaced. -/
theorem within_letIn_set (h : Within k (reduce functions · e ρ) (reduce functions · e' ρ))
    {bindings : Scope} {x : String} (hi : bindings[i]? = some (x, e)) (body : List Expr) :
    Within k (reduce functions · (.letIn bindings body) ρ)
      (reduce functions · (.letIn (bindings.set i (x, e')) body) ρ) := by
  have hbindings : List.Forall₂ (SameName (Interchangeable functions k · ρ · ρ)) bindings
      (bindings.set i (x, e')) :=
    forall₂_set (fun _ => .intro (.refl _ ρ)) hi (.intro (.near h))
  exact (inStep_letIn .same hbindings fun x _ _ => .refl .same x ρ).within Interchangeable.within

/-- A call with one of its arguments replaced. -/
theorem within_call_set (h : Within k (reduce functions · e ρ) (reduce functions · e' ρ))
    {arguments : List Expr} (hi : arguments[i]? = some e) (f : String) :
    Within k (reduce functions · (.call f arguments) ρ)
      (reduce functions · (.call f (arguments.set i e')) ρ) := by
  have harguments : List.Forall₂ (Interchangeable functions k · ρ · ρ) arguments
      (arguments.set i e') :=
    forall₂_set (fun e => .refl e ρ) hi (.near h)
  exact (inStep_call .same harguments).within Interchangeable.within

/-- An expression is within some depth of the value it has. -/
theorem exists_within_value (hfunctions : functions.plain = true) (he : e.plain = true)
    {s : Store} {l : Loc} (hl : s.Represents l ρ) {depth : Nat} {v : Expr}
    (hv : (evaluate functions depth e l s).1 = .ok v) :
    v.plain = true ∧ ∃ k, Within k (reduce functions · e ρ) (reduce functions · v ρ) := by
  have hvalue := (evaluate_yields_value functions depth e l s).of_ok hv
  have hplain := Expr.plain_of_valueWithin hvalue
  have hself : (evaluate functions depth v l s).1 = .ok v :=
    congrArg Prod.fst (evaluate_value functions hvalue l s)
  rw [agreesAt hfunctions depth he hl] at hv
  rw [agreesAt hfunctions depth hplain hl] at hself
  exact ⟨hplain, exists_within (endsWith_reduce hv (by simp)) (endsWith_reduce hself (by simp))⟩

end Sharing

/-- If an expression has a value where a `let` or a call is evaluated, then it may be
    replaced by this value among what the `let` binds, and among what the call passes.
    The `let` and the call end as before: with the same value or with the same error,
    or they do not end in either case. -/
theorem evaluate_iff_of_value (functions : FunctionTable) (hfunctions : functions.plain = true)
    {s : Store} {l : Loc} {ρ : Scopes} (hl : s.Represents l ρ) {e v : Expr} {depth : Nat}
    (hv : (evaluate functions depth e l s).1 = .ok v) (i : Nat) (outcome : Except Stop Expr) :
    (∀ (bindings : Scope) (body : List Expr) (x : String),
      (Expr.letIn bindings body).plain = true → bindings[i]? = some (x, e) →
        (EndsWith (fun depth => (evaluate functions depth (.letIn bindings body) l s).1) outcome ↔
          EndsWith (fun depth => (evaluate functions depth
            (.letIn (bindings.set i (x, v)) body) l s).1) outcome)) ∧
      ∀ (f : String) (arguments : List Expr),
        (Expr.call f arguments).plain = true → arguments[i]? = some e →
          (EndsWith (fun depth => (evaluate functions depth (.call f arguments) l s).1) outcome ↔
            EndsWith (fun depth => (evaluate functions depth
              (.call f (arguments.set i v)) l s).1) outcome) := by
  constructor
  · intro bindings body x hletIn hi
    have hplain := hletIn
    rw [Expr.plain, Bool.and_eq_true] at hplain
    have he : e.plain = true := Expr.plainBindings_iff.1 hplain.1 _ (List.mem_of_getElem? hi)
    obtain ⟨hvplain, k, hk⟩ := exists_within_value hfunctions he hl hv
    have hset : (Expr.letIn (bindings.set i (x, v)) body).plain = true := by
      rw [Expr.plain, Bool.and_eq_true]
      exact ⟨Expr.plainBindings_set hplain.1 hvplain i x, hplain.2⟩
    rw [evaluate_run_eq hfunctions hletIn hl, evaluate_run_eq hfunctions hset hl]
    exact (within_letIn_set hk hi body).endsWith_iff
  · intro f arguments hcall hi
    have he : e.plain = true := Expr.plainAll_iff.1 hcall _ (List.mem_of_getElem? hi)
    obtain ⟨hvplain, k, hk⟩ := exists_within_value hfunctions he hl hv
    have hset : (Expr.call f (arguments.set i v)).plain = true :=
      Expr.plainAll_set hcall hvplain i
    rw [evaluate_run_eq hfunctions hcall hl, evaluate_run_eq hfunctions hset hl]
    exact (within_call_set hk hi f).endsWith_iff

/-- The expression is referred to more than once, directly and through an argument that
    is handed on. The `let` ends with an error, and the call with a value. -/
theorem evaluate_iff_of_value_handedOn :
    let functions : FunctionTable :=
      ⟨[("g", ⟨["y", "x"], [.list [.var "x", .var "y"]]⟩),
        ("f", ⟨["x", "y"], [.call "g" [.apply .add [.var "y", .var "x"], .var "y"]]⟩)]⟩
    let e : Expr := .apply .multiply [.var "z", .var "z"]
    let body : List Expr :=
      [.var "y", .apply .divide [.var "y", .apply .subtract [.var "y", .var "y"]]]
    let s : Store := ⟨#[[[("w", .int 3)]], [[("z", .deferred (.var "w") 0)], [("z", .empty)]]]⟩
    let ρ : Scopes := [[("z", .closure (.var "w") [[("w", .plain (.int 3))]])],
      [("z", .plain .empty)]]
    (functions.plain = true ∧ s.Represents 1 ρ ∧ (evaluate functions 9 e 1 s).1 = .ok (.int 9)) ∧
      EndsWith (fun depth => (evaluate functions depth
        (.letIn [("x", .empty), ("y", e)] body) 1 s).1) (.error (.error .divisionByZero)) ∧
      EndsWith (fun depth => (evaluate functions depth
        (.letIn [("x", .empty), ("y", .int 9)] body) 1 s).1) (.error (.error .divisionByZero)) ∧
      EndsWith (fun depth => (evaluate functions depth (.call "f" [.int 1, e]) 1 s).1)
        (.ok (.list [.int 9, .int 10])) ∧
      EndsWith (fun depth => (evaluate functions depth (.call "f" [.int 1, .int 9]) 1 s).1)
        (.ok (.list [.int 9, .int 10])) := by
  intro functions e body s ρ
  have hs : s.Represents 1 ρ := by
    refine ⟨by decide, .cons (.cons ?_ .nil) (.cons (.cons (.plain rfl) .nil) .nil)⟩
    exact .closure rfl (by decide) (.cons (.cons (.plain rfl) .nil) .nil)
  have hv : (evaluate functions 9 e 1 s).1 = .ok (.int 9) := by
    unfold functions e s
    cbv
  have hletIn : (evaluate functions 20 (.letIn [("x", .empty), ("y", e)] body) 1 s).1 =
      .error (.error .divisionByZero) := by
    unfold functions e body s
    cbv
  have hcall : (evaluate functions 20 (.call "f" [.int 1, e]) 1 s).1 =
      .ok (.list [.int 9, .int 10]) := by
    unfold functions e s
    cbv
  have hendsLetIn := endsWith_evaluate rfl rfl hs hletIn (by simp)
  have hendsCall := endsWith_evaluate rfl rfl hs hcall (by simp)
  exact ⟨⟨rfl, hs, hv⟩, hendsLetIn,
    ((evaluate_iff_of_value functions rfl hs hv 1 _).1 _ body "y" rfl rfl).1 hendsLetIn, hendsCall,
    ((evaluate_iff_of_value functions rfl hs hv 1 _).2 "f" _ rfl rfl).1 hendsCall⟩

end LazyLisp
