import LazyLisp.Proofs.Evaluation.CallByName
import LazyLisp.Proofs.Evaluation.Restoration

/-!
# Agreement of the two evaluators

Evaluation on a store, where a `let` changes the environment it runs in and all
arguments of a call share one environment, has the same outcome as reduction in
scopes that never change (`evaluate_eq_reduce`).

An environment of a store *represents* a list of scopes (`Store.Represents`) if
it has the same names bound to the same expressions, and has a deferred argument
for every closure, at a location that represents the scopes of the closure in
turn. As scopes are finite trees, an environment that represents any has no way
back to itself through its deferred arguments. That is what makes the changes of
a `let` harmless: what it is evaluated in represents `ρ`, everything deferred to
from there represents something smaller than `ρ`, and hence is somewhere else
(`Store.Represents.agreeBelow_push`). No condition on the order of locations is
needed, and none on the environments that are out of reach.
-/

namespace LazyLisp

/-! ## Representation -/

mutual

/-- What the store `s` has in a scope for what a name is bound to. -/
inductive StoresBound (s : Store) : Expr → Bound → Prop
  | plain {e : Expr} : e.plain = true → StoresBound s e (.plain e)
  | closure {e : Expr} {home : Loc} {ρ : Scopes} : e.plain = true → home < s.size →
    StoresScopes s (s.get home) ρ → StoresBound s (.deferred e home) (.closure e ρ)

/-- The same for the bindings of a scope, one by one. -/
inductive StoresScope (s : Store) : Scope → List (String × Bound) → Prop
  | nil : StoresScope s [] []
  | cons {x : String} {e : Expr} {b : Bound} {scope : Scope} {σ : List (String × Bound)} :
    StoresBound s e b → StoresScope s scope σ → StoresScope s ((x, e) :: scope) ((x, b) :: σ)

/-- The same for the scopes of an environment, one by one. -/
inductive StoresScopes (s : Store) : Env → Scopes → Prop
  | nil : StoresScopes s [] []
  | cons {scope : Scope} {σ : List (String × Bound)} {env : Env} {ρ : Scopes} :
    StoresScope s scope σ → StoresScopes s env ρ → StoresScopes s (scope :: env) (σ :: ρ)

end

/-- There is an environment at `l`, and it represents the scopes `ρ`. -/
structure Store.Represents (s : Store) (l : Loc) (ρ : Scopes) : Prop where
  lt_size : l < s.size
  scopes : StoresScopes s (s.get l) ρ

variable {s t : Store} {l : Loc} {ρ : Scopes}

mutual

theorem StoresBound.unique {e : Expr} {b c : Bound} (hb : StoresBound s e b)
    (hc : StoresBound s e c) : b = c := by
  cases hb with
  | plain he =>
    cases hc with
    | plain _ => rfl
    | closure _ _ _ => simp [Expr.plain] at he
  | closure _ _ hρ =>
    cases hc with
    | plain he => simp [Expr.plain] at he
    | closure _ _ hσ => rw [hρ.unique hσ]

theorem StoresScope.unique {scope : Scope} {σ τ : List (String × Bound)}
    (hσ : StoresScope s scope σ) (hτ : StoresScope s scope τ) : σ = τ := by
  cases hσ with
  | nil => cases hτ; rfl
  | cons hb hσ =>
    cases hτ with
    | cons hc hτ => rw [hb.unique hc, hσ.unique hτ]

/-- An environment represents one list of scopes at most. -/
theorem StoresScopes.unique {env : Env} {ρ σ : Scopes} (hρ : StoresScopes s env ρ)
    (hσ : StoresScopes s env σ) : ρ = σ := by
  cases hρ with
  | nil => cases hσ; rfl
  | cons h hρ =>
    cases hσ with
    | cons h' hσ => rw [h.unique h', hρ.unique hσ]

end

/-! ### Change of the store -/

/-- The store `t` has the environments of `s` that represent scopes of a size
    less than `n`, as they are in `s`. -/
def Store.AgreeBelow (s t : Store) (n : Nat) : Prop :=
  ∀ l ρ, sizeOf ρ < n → s.Represents l ρ → l < t.size ∧ t.get l = s.get l

theorem Store.AgreeBelow.mono {m n : Nat} (h : s.AgreeBelow t n) (hmn : m ≤ n) :
    s.AgreeBelow t m :=
  fun l ρ hρ => h l ρ (Nat.lt_of_lt_of_le hρ hmn)

mutual

theorem StoresBound.transfer {e : Expr} {b : Bound} (hb : StoresBound s e b)
    (hst : s.AgreeBelow t (sizeOf b)) : StoresBound t e b := by
  cases hb with
  | plain he => exact .plain he
  | @closure e home ρ he hhome hρ =>
    have hsize : sizeOf ρ < sizeOf (Bound.closure e ρ) := by
      rw [Bound.closure.sizeOf_spec]
      omega
    obtain ⟨hlt, hget⟩ := hst home ρ hsize ⟨hhome, hρ⟩
    exact .closure he hlt (hget ▸ hρ.transfer (hst.mono (Nat.le_of_lt hsize)))

theorem StoresScope.transfer {scope : Scope} {σ : List (String × Bound)}
    (hσ : StoresScope s scope σ) (hst : s.AgreeBelow t (sizeOf σ)) : StoresScope t scope σ := by
  cases hσ with
  | nil => exact .nil
  | cons hb hσ =>
    exact .cons (hb.transfer (hst.mono (by simp; omega))) (hσ.transfer (hst.mono (by simp)))

/-- What an environment represents depends only on the environments that
    represent something smaller. -/
theorem StoresScopes.transfer {env : Env} {ρ : Scopes} (hρ : StoresScopes s env ρ)
    (hst : s.AgreeBelow t (sizeOf ρ)) : StoresScopes t env ρ := by
  cases hρ with
  | nil => exact .nil
  | cons h hρ =>
    exact .cons (h.transfer (hst.mono (by simp; omega))) (hρ.transfer (hst.mono (by simp)))

end

theorem Store.Keeps.agreeBelow (ht : t.Keeps s) (n : Nat) : s.AgreeBelow t n :=
  fun l _ _ h => ⟨Nat.lt_of_lt_of_le h.lt_size ht.size_le, ht.get_eq l h.lt_size⟩

namespace Store.Represents

/-- A store that keeps another represents what the other does. -/
theorem keep (h : s.Represents l ρ) (ht : t.Keeps s) : t.Represents l ρ := by
  obtain ⟨hlt, hget⟩ := ht.agreeBelow (sizeOf ρ + 1) l ρ (Nat.lt_succ_self _) h
  exact ⟨hlt, hget ▸ h.scopes.transfer (ht.agreeBelow _)⟩

/-- A scope on top of an environment that represents `ρ` is not seen from the
    environments that represent something smaller: they are other ones. -/
theorem agreeBelow_push (h : s.Represents l ρ) (scope : Scope) :
    s.AgreeBelow (s.push l scope) (sizeOf ρ) := by
  intro m σ hσ hm
  have hne : l ≠ m := by
    rintro rfl
    rw [hm.scopes.unique h.scopes] at hσ
    exact Nat.lt_irrefl _ hσ
  exact ⟨by simpa using hm.lt_size, s.get_set_of_ne _ hne⟩

/-- A new environment represents what its scopes stand for. -/
theorem alloc {env : Env} (h : StoresScopes s env ρ) :
    (s.alloc env).2.Represents (s.alloc env).1 ρ := by
  refine ⟨by simp [Store.alloc, Store.size], ?_⟩
  rw [s.get_alloc_self]
  exact h.transfer ((s.keeps_alloc env).agreeBelow _)

/-- The environment with one more scope on top, if the scope stands for one in
    the store with the change made. -/
theorem push {scope : Scope} {σ : List (String × Bound)} (h : s.Represents l ρ)
    (hσ : StoresScope (s.push l scope) scope σ) : (s.push l scope).Represents l (σ :: ρ) := by
  refine ⟨by simpa using h.lt_size, ?_⟩
  rw [show (s.push l scope).get l = scope :: s.get l from s.get_set_self _ h.lt_size]
  exact .cons hσ (h.scopes.transfer (h.agreeBelow_push scope))

end Store.Represents

/-! ### Scopes and references -/

theorem Expr.plainAll_iff {es : List Expr} :
    Expr.plainAll es = true ↔ ∀ e ∈ es, e.plain = true := by
  induction es with
  | nil => simp [Expr.plainAll]
  | cons e es ih => simp [Expr.plainAll, ih]

theorem Expr.plainBindings_iff {bindings : Scope} :
    Expr.plainBindings bindings = true ↔ ∀ b ∈ bindings, b.2.plain = true := by
  induction bindings with
  | nil => simp [Expr.plainBindings]
  | cons b bindings ih => rw [Expr.plainBindings, Bool.and_eq_true, ih, List.forall_mem_cons]

/-- The bindings of a `let`, as they are, stand for its scope. -/
theorem storesScope_plainScope (s : Store) {bindings : Scope}
    (h : Expr.plainBindings bindings = true) : StoresScope s bindings (plainScope bindings) := by
  induction bindings with
  | nil => exact .nil
  | cons binding bindings ih =>
    rw [Expr.plainBindings, Bool.and_eq_true] at h
    exact .cons (.plain h.1) (ih h.2)

theorem storesScopes_ofEnv (s : Store) {env : Env} (h : env.plain = true) :
    StoresScopes s env (Scopes.ofEnv env) := by
  induction env with
  | nil => exact .nil
  | cons scope env ih =>
    rw [Env.plain, List.all_cons, Bool.and_eq_true] at h
    exact .cons (storesScope_plainScope s h.1) (ih h.2)

/-- The arguments of a call, deferred to where its scopes are represented, stand
    for its closures. -/
theorem Store.Represents.argumentScope (h : s.Represents l ρ) (parameters : List String)
    {arguments : List Expr} (harguments : ∀ e ∈ arguments, e.plain = true) :
    StoresScope s (argumentScope parameters arguments l)
      (closureScope parameters arguments ρ) := by
  induction parameters generalizing arguments with
  | nil => exact .nil
  | cons x parameters ih =>
    cases arguments with
    | nil => exact .nil
    | cons e arguments =>
      rw [List.forall_mem_cons] at harguments
      exact .cons (.closure harguments.1 h.lt_size h.scopes) (ih harguments.2)

theorem StoresScope.lookup {scope : Scope} {σ : List (String × Bound)}
    (h : StoresScope s scope σ) (x : String) :
    (scope.lookup x = none ∧ σ.lookup x = none) ∨
      ∃ e b, scope.lookup x = some e ∧ σ.lookup x = some b ∧ StoresBound s e b := by
  induction σ generalizing scope with
  | nil => cases h; exact .inl ⟨rfl, rfl⟩
  | cons _ σ ih =>
    cases h with
    | @cons y e b scope _ hb hσ =>
      by_cases hxy : x = y
      · subst hxy
        exact .inr ⟨e, b, by simp, by simp, hb⟩
      · have hne : (x == y) = false := beq_false_of_ne hxy
        simp only [List.lookup_cons, hne]
        exact ih hσ

/-- A name is bound in both or in neither, at the same depth. -/
theorem StoresScopes.find {env : Env} (h : StoresScopes s env ρ) (x : String) :
    (env.find x = none ∧ ρ.find x = none) ∨
      ∃ e b depth, env.find x = some (e, depth) ∧ ρ.find x = some (b, depth) ∧
        StoresBound s e b := by
  induction ρ generalizing env with
  | nil => cases h; exact .inl ⟨rfl, rfl⟩
  | cons σ ρ ih =>
    cases h with
    | cons hσ hρ =>
      rcases hσ.lookup x with ⟨hs, hb⟩ | ⟨e, b, hs, hb, hstores⟩
      · rcases ih hρ with ⟨he, hr⟩ | ⟨e, b, depth, he, hr, hstores⟩
        · exact .inl ⟨by simp [Env.find, hs, he], by simp [Scopes.find, hb, hr]⟩
        · exact .inr ⟨e, b, depth + 1, by simp [Env.find, hs, he],
            by simp [Scopes.find, hb, hr], hstores⟩
      · exact .inr ⟨e, b, 0, by simp [Env.find, hs], by simp [Scopes.find, hb], hstores⟩

theorem StoresScopes.drop {env : Env} (h : StoresScopes s env ρ) (n : Nat) :
    StoresScopes s (env.drop n) (ρ.drop n) := by
  induction n generalizing env ρ with
  | zero => exact h
  | succ n ih =>
    cases h with
    | nil => exact .nil
    | cons _ hρ => exact ih hρ

/-! ## Simulation -/

namespace EvalM

variable {α β : Type}

/-- The outcome of a computation followed by another. -/
theorem fst_bind {x : EvalM α} {f : α → EvalM β} {g : α → Except Stop β} {r : Except Stop α}
    (hx : (x s).1 = r) (hf : ∀ a, r = .ok a → (f a (x s).2).1 = g a) :
    ((x >>= f) s).1 = r >>= g := by
  rcases hs : x s with ⟨e | a, t⟩
  · rw [hs] at hx
    subst hx
    rw [bind_of_error f hs]
    rfl
  · rw [hs] at hx hf
    subst hx
    rw [bind_of_ok f hs]
    exact hf a rfl

/-- A reference to a bound expression leads to a new environment, with the
    scopes outside the one that binds it. -/
theorem lookup_of_plain {x : String} {e : Expr} {depth : Nat} (he : e.plain = true)
    (h : (s.get l).find x = some (e, depth)) :
    lookup l x s = (.ok (e, (s.alloc ((s.get l).drop (depth + 1))).1),
      (s.alloc ((s.get l).drop (depth + 1))).2) := by
  refine lookup_of_ne_deferred h ?_
  rintro e home rfl
  simp [Expr.plain] at he

end EvalM

/-- A look-up finds what the name leads to in the scopes that the environment
    represents, with an environment that represents the scopes it leads to; and it
    fails if the name leads nowhere. -/
theorem Store.Represents.lookup (h : s.Represents l ρ) (x : String) :
    match ρ.resolve x with
    | none => EvalM.lookup l x s = (.error (raise (.unknownReference x)), s)
    | some (e, σ) => e.plain = true ∧
        ∃ home t, EvalM.lookup l x s = (.ok (e, home), t) ∧ t.Represents home σ := by
  rcases h.scopes.find x with ⟨henv, hfind⟩ | ⟨e, b, d, henv, hfind, hb⟩
  · rw [Scopes.resolve, hfind, EvalM.lookup, henv]
    rfl
  · rw [Scopes.resolve, hfind]
    cases hb with
    | plain he =>
      -- A new environment, which represents the scopes outside.
      exact ⟨he, _, _, EvalM.lookup_of_plain he henv, .alloc (h.scopes.drop (d + 1))⟩
    | closure he hhome hσ =>
      -- The environment of the call, which represents the scopes of the closure.
      exact ⟨he, _, s, by rw [EvalM.lookup, henv], hhome, hσ⟩

section Sequences

variable {one : Expr → EvalM Expr} {pureOne : Expr → Except Stop Expr}

theorem fst_evaluateAll (hone : ∀ e, (one e).Restores) {es : List Expr}
    (h : ∀ e ∈ es, ∀ t : Store, t.Keeps s → (one e t).1 = pureOne e) :
    (evaluateAll one es s).1 = reduceAll pureOne es := by
  induction es generalizing s with
  | nil => rfl
  | cons e es ih =>
    rw [List.forall_mem_cons] at h
    refine EvalM.fst_bind (h.1 s (.refl s)) fun v _ => EvalM.fst_bind ?_ fun _ _ => rfl
    exact ih fun e he t ht => h.2 e he t (ht.trans (hone _ s))

theorem fst_evaluateLast (hone : ∀ e, (one e).Restores) {e : Expr} {es : List Expr}
    (h : ∀ f ∈ e :: es, ∀ t : Store, t.Keeps s → (one f t).1 = pureOne f) :
    (evaluateLast one e es s).1 = reduceBody pureOne (e :: es) := by
  induction es generalizing e s with
  | nil => exact h e List.mem_cons_self s (.refl s)
  | cons f fs ih =>
    rw [List.forall_mem_cons] at h
    exact EvalM.fst_bind (h.1 s (.refl s)) fun _ _ =>
      ih fun f hf t ht => h.2 f hf t (ht.trans (hone _ s))

end Sequences

/-! ### Evaluation and reduction -/

section Simulation

variable {functions : FunctionTable}

theorem FunctionTable.lookup_eq_ok {f : String} {function : Function}
    (hf : functions.get? f = some function) : functions.lookup f = .ok function := by
  rw [FunctionTable.lookup, hf]

theorem FunctionTable.plainAll_body (hfunctions : functions.plain = true) {f : String}
    {function : Function} (h : functions.lookup f = .ok function) :
    ∀ e ∈ function.body, e.plain = true := by
  rw [← Expr.plainAll_iff]
  rw [FunctionTable.lookup] at h
  split at h
  · next hget =>
    cases h
    rw [FunctionTable.plain, List.all_eq_true] at hfunctions
    obtain ⟨before, after, hentries, _⟩ := List.lookup_eq_some_iff.1 hget
    exact hfunctions (f, function) (by simp [hentries])
  · cases h

/-- With this budget, evaluation where scopes are represented has the outcome of
    reduction in these scopes. -/
def AgreesAt (functions : FunctionTable) (depth : Nat) : Prop :=
  ∀ ⦃e : Expr⦄ ⦃s : Store⦄ ⦃l : Loc⦄ ⦃ρ : Scopes⦄, e.plain = true → s.Represents l ρ →
    (evaluate functions depth e l s).1 = reduce functions depth e ρ

variable {depth : Nat}

/-- A body with its scope on the environment, be it that of a `let` or that of a
    call. -/
theorem AgreesAt.withScope (ih : AgreesAt functions depth) {scope : Scope} {e : Expr}
    {es : List Expr} (hes : ∀ f ∈ e :: es, f.plain = true) (hl : l < s.size)
    (h : (s.push l scope).Represents l ρ) :
    (EvalM.withScope l scope (evaluateLast (evaluate functions depth · l) e es) s).1 =
      reduceBody (reduce functions depth · ρ) (e :: es) := by
  have hrestores (f : Expr) := evaluate_restores functions depth f l
  rw [EvalM.withScope_apply (restores_evaluateLast hrestores e es) hl]
  exact fst_evaluateLast hrestores fun f hf t ht => ih (hes f hf) (h.keep ht)

theorem AgreesAt.var (ih : AgreesAt functions depth) (h : s.Represents l ρ) (x : String) :
    (evaluate functions (depth + 1) (.var x) l s).1 = reduce functions (depth + 1) (.var x) ρ := by
  have heval : evaluate functions (depth + 1) (.var x) l =
      EvalM.lookup l x >>= fun entry => evaluate functions depth entry.1 entry.2 := rfl
  have hlookup := h.lookup x
  rw [heval, reduce_var]
  rcases hresolve : ρ.resolve x with _ | ⟨e, σ⟩ <;> rw [hresolve] at hlookup
  · rw [EvalM.bind_of_error _ hlookup]
  · obtain ⟨he, home, t, hlookup, ht⟩ := hlookup
    rw [EvalM.bind_of_ok _ hlookup]
    exact ih he ht

/-- A call whose function is known and takes this number of arguments. -/
theorem AgreesAt.call (ih : AgreesAt functions depth) (h : s.Represents l ρ)
    {parameters : List String} {arguments body : List Expr}
    (harguments : ∀ e ∈ arguments, e.plain = true) (hbody : ∀ e ∈ body, e.plain = true) :
    ((EvalM.snapshot l >>= fun caller => EvalM.newEnv [] >>= fun callee =>
        evaluate functions (depth + 1) (.letIn (argumentScope parameters arguments caller) body)
          callee) s).1 =
      reduceBody (reduce functions depth · [closureScope parameters arguments ρ]) body := by
  -- The snapshot represents the same scopes, and the environment of the body is
  -- made after it, so that its scope does not change the snapshot.
  have hcaller : (s.alloc (s.get l)).2.Represents (s.alloc (s.get l)).1 ρ := .alloc h.scopes
  have hscope := hcaller.argumentScope parameters harguments
  change (evaluate functions (depth + 1) (.letIn (argumentScope parameters arguments
    (s.alloc (s.get l)).1) body) ((s.alloc (s.get l)).2.alloc []).1
    ((s.alloc (s.get l)).2.alloc []).2).1 = _
  generalize argumentScope parameters arguments (s.alloc (s.get l)).1 = scope at hscope ⊢
  generalize (s.alloc (s.get l)).2 = u at hscope ⊢
  cases body with
  | nil => rfl
  | cons e es =>
    have hcallee : (u.alloc []).2.Represents (u.alloc []).1 [] := .alloc .nil
    have hkeeps : ((u.alloc []).2.push (u.alloc []).1 scope).Keeps u :=
      (u.keeps_alloc []).set_of_le (Nat.le_refl _) _
    exact ih.withScope hbody hcallee.lt_size
      (hcallee.push (hscope.transfer (hkeeps.agreeBelow _)))

/-- The two evaluators agree, whatever the budget. -/
theorem agreesAt (hfunctions : functions.plain = true) (depth : Nat) :
    AgreesAt functions depth := by
  induction depth using Nat.strongRecOn with
  | ind depth ih =>
    intro e s l ρ he h
    cases depth with
    | zero => rfl
    | succ depth =>
      have ih' := ih depth (Nat.lt_succ_self depth)
      have hrestores (f : Expr) := evaluate_restores functions depth f l
      have hall {es : List Expr} (hes : Expr.plainAll es = true) :
          (evaluateAll (evaluate functions depth · l) es s).1 =
            reduceAll (reduce functions depth · ρ) es :=
        fst_evaluateAll hrestores fun f hf t ht => ih' (Expr.plainAll_iff.1 hes f hf) (h.keep ht)
      cases e with
      | int n => rfl
      | bool b => rfl
      | str t => rfl
      | var x => exact ih'.var h x
      | list es => exact EvalM.fst_bind (hall he) fun _ _ => rfl
      | part which target => exact EvalM.fst_bind (ih' he h) fun _ _ => rfl
      | apply op es => exact EvalM.fst_bind (hall he) fun _ _ => rfl
      | ite c t e =>
        simp only [Expr.plain, Bool.and_eq_true] at he
        refine EvalM.fst_bind (ih' he.1.1 h) fun v _ => ?_
        have hkeep := h.keep (hrestores c s)
        cases v with
        | bool b =>
          cases b with
          | true => exact ih' he.1.2 hkeep
          | false => exact ih' he.2 hkeep
        | _ => rfl
      | letIn bindings body =>
        simp only [Expr.plain, Bool.and_eq_true] at he
        cases body with
        | nil => rfl
        | cons e es =>
          exact ih'.withScope (Expr.plainAll_iff.1 he.2) h.lt_size
            (h.push (storesScope_plainScope _ he.1))
      | call f arguments =>
        have hlookup : (EvalM.ofExcept (functions.lookup f) s).1 = functions.lookup f := rfl
        rw [reduce]
        refine EvalM.fst_bind hlookup fun function hfunction => ?_
        have hbody := FunctionTable.plainAll_body hfunctions hfunction
        by_cases harity : function.arity = arguments.length
        · simp only [harity, if_true]
          cases depth with
          | zero => rfl
          | succ depth =>
            exact (ih depth (by omega)).call h (Expr.plainAll_iff.1 he) hbody
        · simp only [harity, if_false]
          rfl
      | defun f parameters body => rfl
      | empty => rfl
      | deferred e home => rfl

end Simulation

/-- Evaluation in an environment that binds plain expressions only has the same
    outcome as reduction in its scopes: the same value, the same error, or the
    same want of depth. The environment may be any of any store. -/
theorem evaluate_eq_reduce (functions : FunctionTable) (hfunctions : functions.plain = true)
    (e : Expr) (he : e.plain = true) (s : Store) (l : Loc) (hl : l < s.size)
    (henv : (s.get l).plain = true) (depth : Nat) :
    (evaluate functions depth e l s).1 = reduce functions depth e (.ofEnv (s.get l)) :=
  agreesAt hfunctions depth he ⟨hl, storesScopes_ofEnv s henv⟩

/-- Two arguments in one environment, the first of which puts a scope on it each
    time it is referred to. -/
theorem evaluate_eq_reduce_sharedArguments :
    let functions : FunctionTable :=
      ⟨[("f", ⟨["x", "y"], [.apply .add [.var "x", .var "y", .var "x"]]⟩)]⟩
    let e : Expr :=
      .call "f" [.letIn [("z", .int 1)] [.apply .add [.var "z", .var "w"]], .var "w"]
    let s : Store := ⟨#[[[("w", .int 5)]]]⟩
    (functions.plain = true ∧ e.plain = true ∧ 0 < s.size ∧ (s.get 0).plain = true) ∧
      (evaluate functions 9 e 0 s).1 = .ok (.int 17) ∧
      (evaluate functions 9 e 0 s).1 = reduce functions 9 e (.ofEnv (s.get 0)) :=
  ⟨by decide, rfl,
    evaluate_eq_reduce _ (by decide) _ (by decide) _ _ (by decide) (by decide) _⟩

end LazyLisp
