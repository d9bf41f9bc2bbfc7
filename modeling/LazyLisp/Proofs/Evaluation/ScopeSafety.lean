import LazyLisp.Proofs.Evaluation.Lockstep
import LazyLisp.Proofs.Expr.Every
import LazyLisp.Proofs.Expr.Free

/-!
# Safety of scopes

An expression that is *well scoped* never fails for want of a name or a function,
nor by a wrong number of arguments, however long it is evaluated
(`evaluate_inScope`). Well scoped means (`wellScoped_iff`) that all calls in it
are of known functions and with as many arguments as these take, and that each of
its free names leads to an expression that is well scoped in turn, where it is to
be reduced. Of the functions (`FunctionTable.scoped`) this asks the same of their
calls, and no free names but the parameters.

Evaluation goes on with other expressions in other scopes all the time: with what
a name is bound to, in outer scopes or in those of a caller, and with the body of
a function, in a scope of its own. All of these are well scoped, whenever what
leads to them is.
-/

namespace LazyLisp

/-- If the node is a call, then the function is known and takes this number of
    arguments. -/
def Expr.callable (functions : FunctionTable) : Expr → Bool
  | call f arguments => (functions.get? f).any (·.arity == arguments.length)
  | _ => true

/-- Every call in a function is of a known function, with as many arguments as it
    takes, and every function refers to its own parameters only. -/
def FunctionTable.scoped (functions : FunctionTable) : Bool :=
  functions.entries.all fun (_, function) =>
    Expr.everyAll (Expr.callable functions) function.body &&
      (Expr.freeAll function.body).all (· ∈ function.parameters)

/-- Every call in the expression can be taken, and what its free names lead to is
    well scoped where they lead to. -/
inductive WellScoped (functions : FunctionTable) : Expr → Scopes → Prop
  | intro {e : Expr} {ρ : Scopes} :
    e.every (Expr.callable functions) = true → (∀ x ∈ e.free, ρ.resolve x ≠ none) →
    (∀ x ∈ e.free, ∀ e' σ, ρ.resolve x = some (e', σ) → WellScoped functions e' σ) →
    WellScoped functions e ρ

section Steps

variable {functions : FunctionTable} {e e' : Expr} {ρ : Scopes}

theorem wellScoped_iff :
    WellScoped functions e ρ ↔ e.every (Expr.callable functions) = true ∧
      ∀ x ∈ e.free, ∃ e' σ, ρ.resolve x = some (e', σ) ∧ WellScoped functions e' σ := by
  constructor
  · rintro ⟨hcalls, hbound, hleads⟩
    refine ⟨hcalls, fun x hx => ?_⟩
    obtain ⟨⟨e', σ⟩, hresolve⟩ := Option.ne_none_iff_exists'.1 (hbound x hx)
    exact ⟨e', σ, hresolve, hleads x hx e' σ hresolve⟩
  · rintro ⟨hcalls, hnames⟩
    refine .intro hcalls (fun x hx hnone => ?_) fun x hx e' σ hsome => ?_
    · obtain ⟨e', σ, hresolve, -⟩ := hnames x hx
      rw [hnone] at hresolve
      cases hresolve
    · obtain ⟨e'', σ', hresolve, h⟩ := hnames x hx
      rw [hsome] at hresolve
      cases hresolve
      exact h

/-- An expression with fewer free names, in the same scopes. -/
theorem WellScoped.of_subset (h : WellScoped functions e ρ)
    (hcalls : e'.every (Expr.callable functions) = true) (hfree : e'.free ⊆ e.free) :
    WellScoped functions e' ρ := by
  rw [wellScoped_iff] at h ⊢
  exact ⟨hcalls, fun x hx => h.2 x (hfree hx)⟩

theorem WellScoped.calls (h : WellScoped functions e ρ) :
    e.every (Expr.callable functions) = true :=
  (wellScoped_iff.1 h).1

/-- The expressions in the body of a `let`. -/
theorem WellScoped.letIn {bindings : Scope} {body : List Expr}
    (h : WellScoped functions (.letIn bindings body) ρ) (he : e ∈ body) :
    WellScoped functions e (plainScope bindings :: ρ) := by
  have hcalls := h.calls
  simp only [Expr.every, Bool.and_eq_true, Expr.everyBound_iff, Expr.everyAll_iff] at hcalls
  rw [wellScoped_iff]
  refine ⟨hcalls.2.2 e he, fun x hx => ?_⟩
  rw [Scopes.resolve_letIn]
  rcases hlookup : bindings.lookup x with _ | bound
  · -- Not bound here: it is free in the `let`.
    refine (wellScoped_iff.1 h).2 x (Expr.mem_free_letIn ?_ (lookup_eq_none_iff_notMem.1 hlookup))
    exact Expr.free_subset_freeAll he hx
  · have hmem := mem_of_lookup hlookup
    exact ⟨bound, ρ, rfl, h.of_subset (hcalls.2.1 _ hmem) (Expr.free_subset_letIn hmem body)⟩

/-- The expressions in the body of a function, in the scope of a call of it. -/
theorem WellScoped.call {f : String} {function : Function} {arguments : List Expr}
    (h : WellScoped functions (.call f arguments) ρ)
    (hcalls : e.every (Expr.callable functions) = true)
    (hfree : ∀ x ∈ e.free, x ∈ function.parameters)
    (harity : function.arity = arguments.length) :
    WellScoped functions e [closureScope function.parameters arguments ρ] := by
  have harguments := h.calls
  simp only [Expr.every, Bool.and_eq_true, Expr.everyAll_iff] at harguments
  rw [wellScoped_iff]
  refine ⟨hcalls, fun x hx => ?_⟩
  rw [Scopes.resolve_call]
  obtain ⟨argument, hmem, hlookup⟩ := exists_lookup_zip (hfree x hx) harity
  rw [hlookup]
  exact ⟨argument, ρ, rfl, h.of_subset (harguments.2 _ hmem) (Expr.free_subset_freeAll hmem)⟩

end Steps

/-- Outcomes that are no errors of scope; the second one does not count. -/
def Comparison.safety : Comparison where
  Holds r _ := InScope r
  refl h := h
  bind := InScope.bind

section Safety

variable {functions : FunctionTable}

/-- One expression in one list of scopes, where it is well scoped. -/
def ScopedAlike (functions : FunctionTable) (e : Expr) (ρ : Scopes) (e' : Expr) (ρ' : Scopes) :
    Prop :=
  e = e' ∧ ρ = ρ' ∧ WellScoped functions e ρ

theorem forall₂_scopedAlike {es : List Expr} {ρ : Scopes} (h : ∀ e ∈ es, WellScoped functions e ρ) :
    List.Forall₂ (ScopedAlike functions · ρ · ρ) es es :=
  List.forall₂_same.2 fun e he => ⟨rfl, rfl, h e he⟩

theorem lockstep_scopedAlike (hfunctions : functions.scoped = true) :
    Lockstep functions functions .safety (ScopedAlike functions) := by
  rintro e ρ _ _ ⟨rfl, rfl, h⟩
  have hcalls := h.calls
  cases e with
  | int _ | bool _ | str _ => exact .settled fun _ => inScope_ok _
  | defun _ _ _ | empty | deferred _ _ => exact .settled fun _ => inScope_raise rfl
  | var x =>
    obtain ⟨e, σ, hresolve, he⟩ := (wellScoped_iff.1 h).2 x (List.mem_singleton_self x)
    exact .var hresolve hresolve ⟨rfl, rfl, he⟩
  | list es =>
    simp only [Expr.every, Bool.and_eq_true, Expr.everyAll_iff] at hcalls
    refine .list (forall₂_scopedAlike fun e he => ?_)
    exact h.of_subset (hcalls.2 e he) (Expr.free_subset_freeAll he)
  | part which e =>
    simp only [Expr.every, Bool.and_eq_true] at hcalls
    exact .part ⟨rfl, rfl, h.of_subset hcalls.2 (List.Subset.refl _)⟩
  | apply op es =>
    simp only [Expr.every, Bool.and_eq_true, Expr.everyAll_iff] at hcalls
    refine .apply (forall₂_scopedAlike fun e he => ?_)
    exact h.of_subset (hcalls.2 e he) (Expr.free_subset_freeAll he)
  | ite c t e =>
    simp only [Expr.every, Bool.and_eq_true] at hcalls
    refine .ite ⟨rfl, rfl, h.of_subset hcalls.2.1.1 ?_⟩ ⟨rfl, rfl, h.of_subset hcalls.2.1.2 ?_⟩
      ⟨rfl, rfl, h.of_subset hcalls.2.2 ?_⟩ <;> simp [Expr.free]
  | letIn bindings body => exact .letIn (forall₂_scopedAlike fun e he => h.letIn he)
  | call f arguments =>
    -- The function is known, and takes these arguments.
    have hcallable : (functions.get? f).any (·.arity == arguments.length) = true :=
      Expr.every_self hcalls
    rw [Option.any_eq_true] at hcallable
    obtain ⟨function, hf, harity⟩ := hcallable
    rw [beq_iff_eq] at harity
    rw [FunctionTable.scoped, List.all_eq_true] at hfunctions
    have hfunction := hfunctions (f, function) (mem_of_lookup hf)
    simp only [Bool.and_eq_true, Expr.everyAll_iff, List.all_eq_true, decide_eq_true_eq]
      at hfunction
    refine .call hf hf harity harity (forall₂_scopedAlike fun e he => ?_)
    refine h.call (hfunction.1 e he) (fun x hx => ?_) harity
    exact hfunction.2 x (Expr.free_subset_freeAll he hx)

theorem reduce_inScope (hfunctions : functions.scoped = true) {e : Expr} {ρ : Scopes}
    (h : WellScoped functions e ρ) (depth : Nat) : InScope (reduce functions depth e ρ) :=
  (lockstep_scopedAlike hfunctions).holds depth ⟨rfl, rfl, h⟩

end Safety

/-- The evaluation of a well scoped expression, with whatever budget for its
    nesting, meets no unknown name, no unknown function and no wrong number of
    arguments. An error ends the evaluation wherever it arises, so that this
    speaks of every point of it. -/
theorem evaluate_inScope (functions : FunctionTable) (hfunctions : functions.plain = true)
    (hscoped : functions.scoped = true) (e : Expr) (he : e.plain = true) {s : Store} {l : Loc}
    {ρ : Scopes} (hl : s.Represents l ρ) (h : WellScoped functions e ρ) (depth : Nat) :
    (∀ x, (evaluate functions depth e l s).1 ≠ .error (.error (.unknownReference x))) ∧
      (∀ f, (evaluate functions depth e l s).1 ≠ .error (.error (.unknownFunction f))) ∧
      ∀ f m n, (evaluate functions depth e l s).1 ≠ .error (.error (.arityMismatch f m n)) := by
  rw [agreesAt hfunctions depth he hl]
  have hsafe := reduce_inScope hscoped h depth
  refine ⟨fun x hx => ?_, fun f hf => ?_, fun f m n hf => ?_⟩
  · exact Bool.noConfusion (hsafe _ hx)
  · exact Bool.noConfusion (hsafe _ hf)
  · exact Bool.noConfusion (hsafe _ hf)

/-- A recursive function, called in a `let` whose name is also that of the
    parameter and of a deferred argument that the bound expression refers to. -/
theorem evaluate_inScope_recursion :
    let factorial : Function := ⟨["n"], [.ite (.apply .equal [.var "n", .int 0]) (.int 1)
      (.apply .multiply [.var "n", .call "f" [.apply .subtract [.var "n", .int 1]]])]⟩
    let functions : FunctionTable := ⟨[("f", factorial)]⟩
    let e : Expr := .letIn [("n", .apply .add [.var "n", .int 1])] [.call "f" [.var "n"]]
    let s : Store := ⟨#[[[("m", .int 1)]], [[("n", .deferred (.var "m") 0)], [("m", .empty)]]]⟩
    let ρ : Scopes := [[("n", .closure (.var "m") [[("m", .plain (.int 1))]])],
      [("m", .plain .empty)]]
    (functions.plain = true ∧ functions.scoped = true ∧ e.plain = true ∧ s.Represents 1 ρ ∧
        WellScoped functions e ρ) ∧
      (evaluate functions 24 e 1 s).1 = .ok (.int 2) ∧
      (∀ x, (evaluate functions 24 e 1 s).1 ≠ .error (.error (.unknownReference x))) ∧
      (∀ f, (evaluate functions 24 e 1 s).1 ≠ .error (.error (.unknownFunction f))) ∧
      ∀ f m n, (evaluate functions 24 e 1 s).1 ≠ .error (.error (.arityMismatch f m n)) := by
  intro factorial functions e s ρ
  have hs : s.Represents 1 ρ := by
    refine ⟨by decide, .cons (.cons ?_ .nil) (.cons (.cons (.plain rfl) .nil) .nil)⟩
    exact .closure rfl (by decide) (.cons (.cons (.plain rfl) .nil) .nil)
  have hone : WellScoped functions (.int 1) [] :=
    wellScoped_iff.2 ⟨rfl, fun x hx => absurd hx List.not_mem_nil⟩
  have hm : WellScoped functions (.var "m") [[("m", .plain (.int 1))]] := by
    refine wellScoped_iff.2 ⟨rfl, fun x hx => ?_⟩
    obtain rfl := List.mem_singleton.1 hx
    exact ⟨.int 1, [], rfl, hone⟩
  have he : WellScoped functions e ρ := by
    refine wellScoped_iff.2 ⟨rfl, fun x hx => ?_⟩
    obtain rfl : x = "n" := by simpa [e, Expr.free, Expr.freeAll, Expr.freeBound] using hx
    exact ⟨.var "m", _, rfl, hm⟩
  have hvalue : (evaluate functions 24 e 1 s).1 = .ok (.int 2) := by
    unfold functions factorial e s
    cbv
  exact ⟨⟨rfl, rfl, rfl, hs, he⟩, hvalue, evaluate_inScope functions rfl rfl e rfl hs he 24⟩

end LazyLisp
