import LazyLisp.Proofs.Evaluation.Lockstep

/-!
# Laziness

What an evaluation has not reduced is irrelevant to its value. The empty
expression has no value, so where it stands in the way of an evaluation that
succeeds, it has not been reduced, and anything may stand in its place
(`evaluate_eq_ok_of_approximates`): a branch that is not taken, a binding or an
argument that is not referred to, be it passed on through any number of calls.

An expression *approximates* another (`Expr.Approximates`) if it is the other with
some of its subexpressions replaced by the empty one. The same is said of
functions, by their bodies, and of scopes, by their bindings.
-/

namespace LazyLisp

/-! ## Approximation -/

/-- The first expression is the second one with any number of its subexpressions
    replaced by the empty expression. -/
inductive Expr.Approximates : Expr → Expr → Prop
  | empty (e : Expr) : Approximates .empty e
  | int (n : Int) : Approximates (.int n) (.int n)
  | bool (b : Bool) : Approximates (.bool b) (.bool b)
  | str (t : String) : Approximates (.str t) (.str t)
  | var (x : String) : Approximates (.var x) (.var x)
  | list {es es' : List Expr} :
    List.Forall₂ Approximates es es' → Approximates (.list es) (.list es')
  | part {which : Part} {e e' : Expr} :
    Approximates e e' → Approximates (.part which e) (.part which e')
  | apply {op : Op} {es es' : List Expr} :
    List.Forall₂ Approximates es es' → Approximates (.apply op es) (.apply op es')
  | ite {c t e c' t' e' : Expr} :
    Approximates c c' → Approximates t t' → Approximates e e' →
    Approximates (.ite c t e) (.ite c' t' e')
  | letIn {bs bs' : Scope} {es es' : List Expr} :
    List.Forall₂ (SameName Approximates) bs bs' → List.Forall₂ Approximates es es' →
    Approximates (.letIn bs es) (.letIn bs' es')
  | call {f : String} {es es' : List Expr} :
    List.Forall₂ Approximates es es' → Approximates (.call f es) (.call f es')
  | defun {f : String} {parameters : List String} {es es' : List Expr} :
    List.Forall₂ Approximates es es' →
    Approximates (.defun f parameters es) (.defun f parameters es')

/-- The same for what a name is bound to. The empty expression approximates an
    argument too. -/
inductive Bound.Approximates : Bound → Bound → Prop
  | empty (b : Bound) : Approximates (.plain .empty) b
  | plain {e e' : Expr} : e.Approximates e' → Approximates (.plain e) (.plain e')
  | closure {e e' : Expr} {ρ ρ' : Scopes} :
    e.Approximates e' → List.Forall₂ (List.Forall₂ (SameName Approximates)) ρ ρ' →
    Approximates (.closure e ρ) (.closure e' ρ')

/-- The same for scopes, binding by binding. -/
def Scopes.Approximates (ρ ρ' : Scopes) : Prop :=
  List.Forall₂ (List.Forall₂ (SameName Bound.Approximates)) ρ ρ'

/-- The same for functions: the second table has every function of the first, with
    the same parameters, and with a body that the body in the first approximates. -/
def FunctionTable.Approximates (functions functions' : FunctionTable) : Prop :=
  ∀ f function, functions.get? f = some function →
    ∃ function', functions'.get? f = some function' ∧
      function.parameters = function'.parameters ∧
      List.Forall₂ Expr.Approximates function.body function'.body

/-! ### Names -/

/-- What a name leads to is approximated, unless it leads to nothing or to the
    empty expression. -/
theorem Scopes.Approximates.resolve {ρ ρ' : Scopes} (h : ρ.Approximates ρ') (x : String) :
    ρ.resolve x = none ∨ (∃ σ, ρ.resolve x = some (.empty, σ)) ∨
      ∃ e e' σ σ', ρ.resolve x = some (e, σ) ∧ ρ'.resolve x = some (e', σ') ∧
        e.Approximates e' ∧ σ.Approximates σ' := by
  induction h with
  | nil => exact .inl rfl
  | @cons scope scope' ρ ρ' hscope hρ ih =>
    rw [Scopes.resolve_cons, Scopes.resolve_cons]
    rcases SameName.lookup hscope x with ⟨hx, hx'⟩ | ⟨b, b', hx, hx', hb⟩ <;> rw [hx, hx']
    · exact ih
    · rcases hb with _ | he | ⟨he, hσ⟩
      · exact .inr (.inl ⟨ρ, rfl⟩)
      · exact .inr (.inr ⟨_, _, ρ, ρ', rfl, rfl, he, hρ⟩)
      · exact .inr (.inr ⟨_, _, _, _, rfl, rfl, he, hσ⟩)

theorem Scopes.Approximates.letIn {ρ ρ' : Scopes} (h : ρ.Approximates ρ') {bs bs' : Scope}
    (hbs : List.Forall₂ (SameName Expr.Approximates) bs bs') :
    Scopes.Approximates (plainScope bs :: ρ) (plainScope bs' :: ρ') := by
  refine .cons ?_ h
  rw [plainScope, plainScope, List.forall₂_map_left_iff, List.forall₂_map_right_iff]
  refine hbs.imp fun b b' hb => ?_
  obtain ⟨he⟩ := hb
  exact .intro (.plain he)

theorem Scopes.Approximates.call {ρ ρ' : Scopes} (h : ρ.Approximates ρ') (parameters : List String)
    {es es' : List Expr} (hes : List.Forall₂ Expr.Approximates es es') :
    Scopes.Approximates [closureScope parameters es ρ] [closureScope parameters es' ρ'] := by
  refine .cons (SameName.zip ?_ parameters) .nil
  rw [List.forall₂_map_left_iff, List.forall₂_map_right_iff]
  exact hes.imp fun _ _ he => .closure he h

/-! ## Values -/

/-- Outcomes of which the second is a value, and the same, if the first is one. -/
def Comparison.success : Comparison where
  Holds {α} r r' := ∀ a : α, r = .ok a → r' = .ok a
  refl _ _ h := h
  bind := by
    intro α β r r' f f' hr hf b hb
    rcases r with stop | a
    · cases hb
    · rw [hr a rfl]
      exact hf a b hb

section Laziness

variable {functions functions' : FunctionTable}

/-- Where the first reduction fails, nothing is asked of the second. -/
theorem InStep.of_error {R : Expr → Scopes → Expr → Scopes → Prop} {e e' : Expr} {ρ ρ' : Scopes}
    (h : ∀ depth, ∃ stop, reduce functions (depth + 1) e ρ = .error stop) :
    InStep functions functions' .success R e ρ e' ρ' := by
  refine .settled fun depth v hv => ?_
  obtain ⟨stop, hstop⟩ := h depth
  rw [hstop] at hv
  cases hv

theorem reduce_empty (depth : Nat) (ρ : Scopes) :
    ∃ stop, reduce functions depth .empty ρ = .error stop := by
  rcases depth with _ | depth
  · exact ⟨_, rfl⟩
  · exact ⟨_, rfl⟩

/-- An expression and one that it approximates, in scopes that approximate. -/
def Approximating (e : Expr) (ρ : Scopes) (e' : Expr) (ρ' : Scopes) : Prop :=
  e.Approximates e' ∧ ρ.Approximates ρ'

theorem forall₂_approximating {es es' : List Expr} {ρ ρ' : Scopes}
    (hes : List.Forall₂ Expr.Approximates es es') (hρ : ρ.Approximates ρ') :
    List.Forall₂ (Approximating · ρ · ρ') es es' :=
  hes.imp fun _ _ he => ⟨he, hρ⟩

theorem lockstep_approximating (hfunctions : functions.Approximates functions') :
    Lockstep functions functions' .success Approximating := by
  rintro e ρ e' ρ' ⟨he, hρ⟩
  cases he with
  | empty => exact .of_error fun depth => reduce_empty (depth + 1) ρ
  | int _ | bool _ | str _ => exact .settled fun _ v hv => hv
  | var x =>
    rcases hρ.resolve x with hx | ⟨σ, hx⟩ | ⟨e, e', σ, σ', hx, hx', he, hσ⟩
    · exact .of_error fun depth => ⟨_, reduce_var_of_none hx depth⟩
    · -- The reference leads to the empty expression, and there it fails.
      refine .of_error fun depth => ?_
      rw [reduce_var_of_some hx]
      exact reduce_empty depth σ
    · exact .var hx hx' ⟨he, hσ⟩
  | list hes => exact .list (forall₂_approximating hes hρ)
  | part he => exact .part ⟨he, hρ⟩
  | apply hes => exact .apply (forall₂_approximating hes hρ)
  | ite hc ht he => exact .ite ⟨hc, hρ⟩ ⟨ht, hρ⟩ ⟨he, hρ⟩
  | letIn hbs hes => exact .letIn (forall₂_approximating hes (hρ.letIn hbs))
  | @call f es es' hes =>
    rcases hf : functions.get? f with _ | function
    · exact .of_error fun depth => ⟨_, reduce_call_of_none hf depth ρ⟩
    · obtain ⟨function', hf', hparameters, hbody⟩ := hfunctions f function hf
      by_cases harity : function.arity = es.length
      · have harity' : function'.arity = es'.length := by
          rw [← hes.length_eq, ← harity, Function.arity, Function.arity, hparameters]
        refine .call hf hf' harity harity' (forall₂_approximating hbody ?_)
        rw [← hparameters]
        exact hρ.call function.parameters hes
      · exact .of_error fun depth => ⟨_, reduce_call_of_ne hf harity depth ρ⟩
  | defun _ => exact .of_error fun depth => ⟨_, rfl⟩

theorem reduce_eq_ok_of_approximates (hfunctions : functions.Approximates functions')
    {e e' : Expr} (he : e.Approximates e') {ρ ρ' : Scopes} (hρ : ρ.Approximates ρ')
    {depth : Nat} {v : Expr} (hv : reduce functions depth e ρ = .ok v) :
    reduce functions' depth e' ρ' = .ok v :=
  (lockstep_approximating hfunctions).holds depth ⟨he, hρ⟩ v hv

end Laziness

/-- If an evaluation has a value, then so has every evaluation that it
    approximates, in its expression, in its functions and in the environment it
    starts in, and the value is the same. -/
theorem evaluate_eq_ok_of_approximates {functions functions' : FunctionTable}
    (hplain : functions.plain = true) (hplain' : functions'.plain = true)
    (hfunctions : functions.Approximates functions') {e e' : Expr} (he : e.plain = true)
    (he' : e'.plain = true) (h : e.Approximates e') {s t : Store} {l m : Loc} {ρ ρ' : Scopes}
    (hl : s.Represents l ρ) (hm : t.Represents m ρ') (hρ : ρ.Approximates ρ') {depth : Nat}
    {v : Expr} (hv : (evaluate functions depth e l s).1 = .ok v) :
    (evaluate functions' depth e' m t).1 = .ok v := by
  rw [agreesAt hplain depth he hl] at hv
  rw [agreesAt hplain' depth he' hm]
  exact reduce_eq_ok_of_approximates hfunctions h hρ hv

/-- A branch, a binding, an argument that is passed on and entries of two
    environments, none of them reduced: there the empty expression and a division
    by zero are the same. -/
theorem evaluate_eq_ok_of_approximates_unused :
    let functions (e : Expr) : FunctionTable :=
      ⟨[("choose", ⟨["c", "a", "b"], [.ite (.var "c") (.var "a") e]⟩),
        ("first", ⟨["a", "b"], [.call "choose" [.bool true, .var "a", .var "b"]]⟩)]⟩
    let program (e : Expr) : Expr :=
      .letIn [("u", e), ("v", .int 4)] [.call "first" [.apply .add [.var "v", .var "z"], e]]
    let store (e : Expr) : Store :=
      ⟨#[[[("k", .int 1), ("w", e)]], [[("z", .deferred (.var "k") 0)], [("z", e)]]]⟩
    let scopes (e : Expr) : Scopes :=
      [[("z", .closure (.var "k") [[("k", .plain (.int 1)), ("w", .plain e)]])], [("z", .plain e)]]
    let failing : Expr := .apply .divide [.int 1, .int 0]
    (((functions .empty).plain = true ∧ (functions failing).plain = true ∧
          (functions .empty).Approximates (functions failing)) ∧
        ((program .empty).plain = true ∧ (program failing).plain = true ∧
          (program .empty).Approximates (program failing)) ∧
        (store .empty).Represents 1 (scopes .empty) ∧
        (store failing).Represents 1 (scopes failing) ∧
        (scopes .empty).Approximates (scopes failing) ∧
        (evaluate (functions .empty) 12 (program .empty) 1 (store .empty)).1 = .ok (.int 5)) ∧
      (evaluate (functions failing) 12 (program failing) 1 (store failing)).1 = .ok (.int 5) := by
  intro functions program store scopes failing
  have hfunctions : (functions .empty).Approximates (functions failing) := by
    intro f function hf
    rcases List.mem_cons.1 (mem_of_lookup hf) with h | h
    · cases h
      exact ⟨_, rfl, rfl, .cons (.ite (.var _) (.var _) (.empty _)) .nil⟩
    · cases List.mem_singleton.1 h
      refine ⟨_, rfl, rfl, .cons (.call ?_) .nil⟩
      exact .cons (.bool _) (.cons (.var _) (.cons (.var _) .nil))
  have hprogram : (program .empty).Approximates (program failing) := by
    refine .letIn (.cons (.intro (.empty _)) (.cons (.intro (.int _)) .nil)) (.cons (.call ?_) .nil)
    exact .cons (.apply (.cons (.var _) (.cons (.var _) .nil))) (.cons (.empty _) .nil)
  have hstore (e : Expr) (he : e.plain = true) : (store e).Represents 1 (scopes e) := by
    refine ⟨Nat.one_lt_two, .cons (.cons ?_ .nil) (.cons (.cons (.plain he) .nil) .nil)⟩
    exact .closure rfl Nat.zero_lt_two (.cons (.cons (.plain rfl) (.cons (.plain he) .nil)) .nil)
  have hscopes : (scopes .empty).Approximates (scopes failing) := by
    refine .cons (.cons (.intro (.closure (.var _) ?_)) .nil)
      (.cons (.cons (.intro (.empty _)) .nil) .nil)
    exact .cons (.cons (.intro (.plain (.int _))) (.cons (.intro (.empty _)) .nil)) .nil
  have hvalue : (evaluate (functions .empty) 12 (program .empty) 1 (store .empty)).1 =
      .ok (.int 5) := by
    unfold functions program store
    cbv
  exact ⟨⟨⟨rfl, rfl, hfunctions⟩, ⟨rfl, rfl, hprogram⟩, hstore .empty rfl, hstore failing rfl,
    hscopes, hvalue⟩, evaluate_eq_ok_of_approximates rfl rfl hfunctions rfl rfl hprogram
      (hstore .empty rfl) (hstore failing rfl) hscopes hvalue⟩

end LazyLisp
