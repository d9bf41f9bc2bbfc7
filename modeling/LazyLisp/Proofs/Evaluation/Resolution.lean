import LazyLisp.Proofs.Evaluation.Agreement

/-!
# Resolution of names

The laws of `Scopes.resolve`, which gives the expression that a reference leads to
and the scopes to reduce it in. For what a `let` binds these are the scopes outside
of it, and for an argument those of its call; everything that is proved about the
meaning of names goes through this one function, and no longer through the depth of
scopes or the two kinds of bindings.

* `Scopes.resolve_letIn`, `Scopes.resolve_call`: the names in the body of a `let`
  and in the body of a function;
* `Scopes.sizeOf_lt_of_resolve`: the scopes that a reference leads to are smaller,
  so that following references comes to an end;
* `Scopes.Lead`: names that lead to what is related, in two lists of scopes. It is
  kept where both sides enter a `let` or a function with what is related.
-/

namespace LazyLisp

/-! ## Bindings -/

section Bindings

variable {α β : Type} {x : String} {bindings : List (String × α)}

theorem lookup_map_snd (f : α → β) (x : String) (bindings : List (String × α)) :
    (bindings.map (Prod.map id f)).lookup x = (bindings.lookup x).map f := by
  induction bindings with
  | nil => rfl
  | cons binding bindings ih =>
    rw [List.map_cons, List.lookup_cons, List.lookup_cons, ih]
    cases h : x == binding.1 <;> simp [h]

theorem lookup_eq_none_iff_notMem : bindings.lookup x = none ↔ x ∉ bindings.map Prod.fst := by
  rw [List.lookup_eq_none_iff, List.mem_map, not_exists]
  constructor
  · rintro h b ⟨hb, rfl⟩
    simpa using h b hb
  · intro h b hb
    rw [bne_iff_ne]
    rintro rfl
    exact h b ⟨hb, rfl⟩

theorem mem_of_lookup {a : α} (h : bindings.lookup x = some a) : (x, a) ∈ bindings := by
  obtain ⟨before, after, rfl, _⟩ := List.lookup_eq_some_iff.1 h
  exact List.mem_append_right _ List.mem_cons_self

/-- A parameter is bound to one of the arguments, if there are enough of them. -/
theorem exists_lookup_zip {names : List String} {values : List α} (hx : x ∈ names)
    (hlength : names.length = values.length) :
    ∃ a ∈ values, (names.zip values).lookup x = some a := by
  rcases hlookup : (names.zip values).lookup x with _ | a
  · rw [lookup_eq_none_iff_notMem, List.map_fst_zip hlength.le] at hlookup
    exact absurd hx hlookup
  · exact ⟨a, (List.of_mem_zip (mem_of_lookup hlookup)).2, rfl⟩

/-- Bindings of one name, to what is related. -/
inductive SameName {α : Type} (R : α → α → Prop) : String × α → String × α → Prop
  | intro {x : String} {a a' : α} : R a a' → SameName R (x, a) (x, a')

variable {R : α → α → Prop}

/-- A name is bound in both or in neither, and to what is related. -/
theorem SameName.lookup {bs bs' : List (String × α)} (h : List.Forall₂ (SameName R) bs bs')
    (x : String) : (bs.lookup x = none ∧ bs'.lookup x = none) ∨
      ∃ a a', bs.lookup x = some a ∧ bs'.lookup x = some a' ∧ R a a' := by
  induction h with
  | nil => exact .inl ⟨rfl, rfl⟩
  | @cons b b' bs bs' hb _ ih =>
    obtain @⟨y, a, a', ha⟩ := hb
    rw [List.lookup_cons, List.lookup_cons]
    cases x == y with
    | true => exact .inr ⟨a, a', rfl, rfl, ha⟩
    | false => exact ih

theorem SameName.zip {values values' : List α} (h : List.Forall₂ R values values')
    (names : List String) :
    List.Forall₂ (SameName R) (names.zip values) (names.zip values') := by
  induction names generalizing values values' with
  | nil => exact .nil
  | cons x names ih =>
    rcases h with _ | ⟨hv, hvs⟩
    · exact .nil
    · exact .cons (.intro hv) (ih hvs)

end Bindings

/-! ## Names in scopes -/

namespace Scopes

variable {x : String} {e : Expr} {ρ σ : Scopes}

@[simp] theorem resolve_nil (x : String) : resolve x [] = none := rfl

/-- The innermost scope that binds the name decides. -/
theorem resolve_cons (x : String) (scope : List (String × Bound)) (ρ : Scopes) :
    resolve x (scope :: ρ) =
      match scope.lookup x with
      | none => resolve x ρ
      | some (.plain e) => some (e, ρ)
      | some (.closure e σ) => some (e, σ) := by
  rcases hscope : scope.lookup x with _ | _ | _
  · -- The outer scopes decide, at a depth that is greater by one.
    rcases hρ : ρ.find x with _ | ⟨_ | _, depth⟩ <;> simp [resolve, find, hscope, hρ]
  · simp [resolve, find, hscope]
  · simp [resolve, find, hscope]

/-- A name in the body of a `let`. -/
theorem resolve_letIn (x : String) (bindings : Scope) (ρ : Scopes) :
    resolve x (plainScope bindings :: ρ) =
      match bindings.lookup x with
      | none => resolve x ρ
      | some e => some (e, ρ) := by
  have hscope : (plainScope bindings).lookup x = (bindings.lookup x).map .plain :=
    lookup_map_snd Bound.plain x bindings
  rw [resolve_cons, hscope]
  cases bindings.lookup x <;> rfl

/-- A `let` that does not bind a name does not change what it leads to. -/
theorem resolve_letIn_of_none {bindings : Scope} (h : bindings.lookup x = none) :
    resolve x (plainScope bindings :: ρ) = resolve x ρ := by
  rw [resolve_letIn, h]

/-- A name in the body of a function: a parameter, or none at all. -/
theorem resolve_call (x : String) (parameters : List String) (arguments : List Expr) (ρ : Scopes) :
    resolve x [closureScope parameters arguments ρ] =
      ((parameters.zip arguments).lookup x).map (·, ρ) := by
  rw [resolve_cons, closureScope, List.zip_map_right, lookup_map_snd]
  cases (parameters.zip arguments).lookup x <;> rfl

theorem sizeOf_lt_of_mem {scope : List (String × Bound)} (h : (x, .closure e σ) ∈ scope) :
    sizeOf σ < sizeOf scope := by
  have := List.sizeOf_lt_of_mem h
  rw [Prod.mk.sizeOf_spec, Bound.closure.sizeOf_spec] at this
  omega

/-- What a name leads to is to be reduced in smaller scopes. -/
theorem sizeOf_lt_of_resolve (h : resolve x ρ = some (e, σ)) : sizeOf σ < sizeOf ρ := by
  induction ρ with
  | nil => simp at h
  | cons scope ρ ih =>
    rw [resolve_cons] at h
    rw [List.cons.sizeOf_spec]
    split at h
    · have := ih h
      omega
    · cases h
      omega
    · next hlookup =>
      cases h
      have := sizeOf_lt_of_mem (mem_of_lookup hlookup)
      omega

/-! ### Names in two lists of scopes -/

section Lead

variable (R : Expr → Scopes → Expr → Scopes → Prop)

/-- Of two names, each where it stands: both lead nowhere, or they lead to what is
    related. -/
@[mk_iff]
inductive Lead : Option (Expr × Scopes) → Option (Expr × Scopes) → Prop
  | nowhere : Lead none none
  | to {e e' : Expr} {σ σ' : Scopes} : R e σ e' σ' → Lead (some (e, σ)) (some (e', σ'))

variable {R} {ρ' : Scopes}

/-- A name in the bodies of two `let`s that bind the same names. -/
theorem Lead.letIn {bs bs' : Scope} (hbs : List.Forall₂ (SameName (R · ρ · ρ')) bs bs')
    (h : x ∉ bs.map Prod.fst → Lead R (ρ.resolve x) (ρ'.resolve x)) :
    Lead R (resolve x (plainScope bs :: ρ)) (resolve x (plainScope bs' :: ρ')) := by
  rw [resolve_letIn, resolve_letIn]
  rcases SameName.lookup hbs x with ⟨hx, hx'⟩ | ⟨e, e', hx, hx', hR⟩ <;> rw [hx, hx']
  · exact h (lookup_eq_none_iff_notMem.1 hx)
  · exact .to hR

/-- A name in the body of a function that is called with other arguments. -/
theorem Lead.call {arguments arguments' : List Expr}
    (harguments : List.Forall₂ (R · ρ · ρ') arguments arguments') (parameters : List String)
    (x : String) :
    Lead R (resolve x [closureScope parameters arguments ρ])
      (resolve x [closureScope parameters arguments' ρ']) := by
  rw [resolve_call, resolve_call]
  rcases SameName.lookup (SameName.zip harguments parameters) x with
    ⟨hx, hx'⟩ | ⟨e, e', hx, hx', hR⟩ <;> rw [hx, hx']
  · exact .nowhere
  · exact .to hR

end Lead

end Scopes

/-! ## Reduction -/

section Reduction

variable {functions : FunctionTable} {function : Function} {f : String} {arguments : List Expr}

theorem reduce_var_of_none {x : String} {ρ : Scopes} (h : ρ.resolve x = none) (depth : Nat) :
    reduce functions (depth + 1) (.var x) ρ = .error (raise (.unknownReference x)) := by
  rw [reduce_var, h]

theorem reduce_var_of_some {x : String} {e : Expr} {ρ σ : Scopes} (h : ρ.resolve x = some (e, σ))
    (depth : Nat) : reduce functions (depth + 1) (.var x) ρ = reduce functions depth e σ := by
  rw [reduce_var, h]

theorem reduce_call_of_none (hf : functions.get? f = none) (depth : Nat) (ρ : Scopes) :
    reduce functions (depth + 1) (.call f arguments) ρ = .error (raise (.unknownFunction f)) := by
  rw [reduce, FunctionTable.lookup, hf]
  rfl

theorem reduce_call_of_ne (hf : functions.get? f = some function)
    (harity : function.arity ≠ arguments.length) (depth : Nat) (ρ : Scopes) :
    reduce functions (depth + 1) (.call f arguments) ρ =
      .error (raise (.arityMismatch f function.arity arguments.length)) := by
  rw [reduce, FunctionTable.lookup, hf]
  exact if_neg harity

/-- The body of a function, or of a `let`, is entered with one unit of the
    budget. -/
def enterBody (functions : FunctionTable) : Nat → List Expr → Scopes → Except Stop Expr
  | 0, _, _ => .error .tooDeep
  | depth + 1, body, ρ => reduceBody (reduce functions depth · ρ) body

/-- A call that is taken has the outcome of the body of the function, in the
    scope of its parameters alone. -/
theorem reduce_call (hf : functions.get? f = some function)
    (harity : function.arity = arguments.length) (depth : Nat) (ρ : Scopes) :
    reduce functions (depth + 1) (.call f arguments) ρ =
      enterBody functions depth function.body
        [closureScope function.parameters arguments ρ] := by
  rw [reduce, FunctionTable.lookup, hf]
  refine (if_pos harity).trans ?_
  cases depth <;> rfl

end Reduction

end LazyLisp
