import LazyLisp.Proofs.Evaluation.Coincidence

/-!
# Inlining of calls

A call can be replaced by the `let` that binds the parameters of the function to
its arguments, around the body of the function (`evaluate_call_eq_letIn`). The two
are evaluated in different places: the body of the call in a scope of its own,
where every argument is deferred to the environment of the call, and the body of
the `let` on top of that environment, with the arguments bound as they are. But
the parameters coincide in both, and if the body has no other free names, then
this is all that it depends on.

A call has one unit of nesting more, for the `let` that it becomes.
-/

namespace LazyLisp

section Inlining

variable {functions : FunctionTable} {function : Function} {f : String} {arguments : List Expr}

/-- A parameter stands for its argument, in the body of the function as in the
    body of the `let`. -/
theorem Scopes.coincide_parameter {parameters : List String} {x : String}
    (hx : x ∈ parameters) (hlength : parameters.length = arguments.length) (ρ : Scopes) :
    Coincide x [closureScope parameters arguments ρ]
      (plainScope (parameters.zip arguments) :: ρ) := by
  obtain ⟨e, -, hlookup⟩ := exists_lookup_zip hx hlength
  have hcall : resolve x [closureScope parameters arguments ρ] = some (e, ρ) := by
    rw [resolve_call, hlookup]
    rfl
  have hletIn : resolve x (plainScope (parameters.zip arguments) :: ρ) = some (e, ρ) := by
    rw [resolve_letIn, hlookup]
  exact .bound hcall hletIn fun y _ => .refl y ρ

theorem reduce_call_eq_letIn (hf : functions.get? f = some function)
    (hfree : ∀ x ∈ Expr.freeAll function.body, x ∈ function.parameters)
    (harity : function.arity = arguments.length) (ρ : Scopes) (depth : Nat) :
    reduce functions (depth + 1) (.call f arguments) ρ =
      reduce functions depth (.letIn (function.parameters.zip arguments) function.body) ρ := by
  rw [reduce_call hf harity]
  rcases depth with _ | depth
  · rfl
  · refine Comparison.equality.reduceBody (List.forall₂_same.2 fun e he => ?_)
    refine reduce_eq_of_coincideOn (fun x hx => ?_) depth
    exact Scopes.coincide_parameter (hfree x (Expr.free_subset_freeAll he hx)) harity ρ

end Inlining

/-- A call of a function that refers to its parameters only has the outcome of the
    `let` of these parameters, evaluated where the call is: the same value or the
    same error, and the same want of depth if the call has one unit more of it. -/
theorem evaluate_call_eq_letIn (functions : FunctionTable) (hfunctions : functions.plain = true)
    {f : String} {function : Function} (hf : functions.get? f = some function)
    (hfree : ∀ x ∈ Expr.freeAll function.body, x ∈ function.parameters)
    (arguments : List Expr) (harguments : Expr.plainAll arguments = true)
    (harity : function.arity = arguments.length)
    {s : Store} {l : Loc} {ρ : Scopes} (hl : s.Represents l ρ) (depth : Nat) :
    (evaluate functions (depth + 1) (.call f arguments) l s).1 =
      (evaluate functions depth
        (.letIn (function.parameters.zip arguments) function.body) l s).1 := by
  have hbindings : Expr.plainBindings (function.parameters.zip arguments) = true :=
    Expr.plainBindings_iff.2 fun b hb =>
      Expr.plainAll_iff.1 harguments b.2 (List.of_mem_zip hb).2
  have hbody : Expr.plainAll function.body = true :=
    Expr.plainAll_iff.2 (FunctionTable.plainAll_body hfunctions (FunctionTable.lookup_eq_ok hf))
  have hcall : (Expr.call f arguments).plain = true := harguments
  have hletIn : (Expr.letIn (function.parameters.zip arguments) function.body).plain = true := by
    rw [Expr.plain, hbindings, hbody]
    rfl
  rw [agreesAt hfunctions (depth + 1) hcall hl, agreesAt hfunctions depth hletIn hl]
  exact reduce_call_eq_letIn hf hfree harity ρ depth

/-- A parameter that is repeated, and arguments with a name that is also that of a
    parameter. -/
theorem evaluate_call_eq_letIn_repeatedParameter :
    let function : Function :=
      ⟨["x", "y", "x"], [.letIn [("y", .var "x")] [.apply .subtract [.var "y", .int 1]],
        .apply .divide [.var "x", .var "y"]]⟩
    let functions : FunctionTable := ⟨[("g", ⟨[], []⟩), ("f", function)]⟩
    let arguments : List Expr := [.apply .multiply [.var "y", .int 6], .var "x", .call "g" []]
    let s : Store := ⟨#[[[("x", .int 4)]], [[("y", .deferred (.var "x") 0)], [("x", .int 5)]]]⟩
    let ρ : Scopes :=
      [[("y", .closure (.var "x") [[("x", .plain (.int 4))]])], [("x", .plain (.int 5))]]
    (functions.plain = true ∧ functions.get? "f" = some function ∧
        (∀ x ∈ Expr.freeAll function.body, x ∈ function.parameters) ∧
        Expr.plainAll arguments = true ∧ function.arity = arguments.length ∧ s.Represents 1 ρ) ∧
      (evaluate functions 13 (.call "f" arguments) 1 s).1 = .ok (.int 4) ∧
      (evaluate functions 13 (.call "f" arguments) 1 s).1 =
        (evaluate functions 12
          (.letIn (function.parameters.zip arguments) function.body) 1 s).1 := by
  intro function functions arguments s ρ
  have hfree : ∀ x ∈ Expr.freeAll function.body, x ∈ function.parameters := by
    simp [function, Expr.freeAll, Expr.free, Expr.freeBound]
  have hs : s.Represents 1 ρ := by
    refine ⟨by decide, .cons (.cons ?_ .nil) (.cons (.cons (.plain rfl) .nil) .nil)⟩
    exact .closure rfl (by decide) (.cons (.cons (.plain rfl) .nil) .nil)
  have hvalue : (evaluate functions 13 (.call "f" arguments) 1 s).1 = .ok (.int 4) := by
    unfold functions function arguments s
    cbv
  exact ⟨⟨rfl, rfl, hfree, rfl, rfl, hs⟩, hvalue,
    evaluate_call_eq_letIn functions rfl rfl hfree arguments rfl rfl hs 12⟩

end LazyLisp
