import LazyLisp.Builtin

/-!
# What operators deliver

Each operator and each part of a list returns a result of its kind, or stops with an
error. This is said once for all of them (`Op.delivers_run`, `Part.delivers_run`), with
what is known of the results and what is known of the errors: they speak of the values
found, and are never errors of scope.
-/

namespace LazyLisp

/-- The error is one of scope: a name or a function is missing, or the function
    takes another number of arguments. -/
def EvalError.scoping : EvalError → Bool
  | unknownReference _ | unknownFunction _ | arityMismatch _ _ _ => true
  | _ => false

section Delivers

variable {α β : Type} {P : α → Prop} {Q : β → Prop}

/-- The computation returns something with `P`, or stops with an error that is not one
    of scope. -/
inductive Delivers (P : α → Prop) : Except Stop α → Prop
  | ok {a : α} : P a → Delivers P (.ok a)
  | error {cause : EvalError} : cause.scoping = false → Delivers P (.error (raise cause))

theorem Delivers.bind {r : Except Stop α} {f : α → Except Stop β} (hr : Delivers P r)
    (hf : ∀ a, P a → Delivers Q (f a)) : Delivers Q (r >>= f) := by
  cases hr with
  | ok ha => exact hf _ ha
  | error hcause => exact .error hcause

theorem Delivers.of_ok {r : Except Stop α} {a : α} (h : Delivers P r) (hr : r = .ok a) : P a := by
  cases h with
  | ok ha =>
    cases hr
    exact ha
  | error _ => cases hr

end Delivers

theorem delivers_integers (op : Op) (es : List Expr) :
    Delivers (fun _ => True) (integers op es) := by
  induction es with
  | nil => exact .ok trivial
  | cons e es ih =>
    cases e with
    | int n => exact ih.bind fun _ _ => .ok trivial
    | _ => exact .error rfl

theorem delivers_divideByAll (a : Int) (bs : List Int) :
    Delivers (fun _ => True) (divideByAll a bs) := by
  induction bs generalizing a with
  | nil => exact .ok trivial
  | cons b bs ih =>
    have hdivide : Delivers (fun _ => True) (divideInt a b) := by
      rw [divideInt]
      split
      · exact .error rfl
      · exact .ok trivial
    exact hdivide.bind fun q _ => ih q

/-- An operator returns an integer or a truth value. -/
theorem Op.delivers_run (op : Op) (es : List Expr) :
    Delivers (fun v => (∃ n, v = .int n) ∨ ∃ b, v = .bool b) (op.run es) := by
  cases op with
  | equal => exact .ok (.inr ⟨_, rfl⟩)
  | add | multiply => exact (delivers_integers _ _).bind fun _ _ => .ok (.inl ⟨_, rfl⟩)
  | subtract =>
    refine (delivers_integers _ _).bind fun ns _ => ?_
    split
    · exact .error rfl
    · exact .ok (.inl ⟨_, rfl⟩)
  | divide =>
    refine (delivers_integers _ _).bind fun ns _ => ?_
    split
    · exact .error rfl
    · exact (delivers_divideByAll _ _).bind fun _ _ => .ok (.inl ⟨_, rfl⟩)

/-- A part of a list is one of its elements, or a list of some of them. -/
theorem Part.delivers_run (which : Part) (v : Expr) :
    Delivers (fun w => ∃ es, v = .list es ∧ (w ∈ es ∨ ∃ ws ⊆ es, w = .list ws)) (which.run v) := by
  rw [Part.run.eq_def]
  split
  · exact .error rfl
  · next e es =>
    cases which with
    | car => exact .ok ⟨_, rfl, .inl List.mem_cons_self⟩
    | cdr => exact .ok ⟨_, rfl, .inr ⟨es, List.subset_cons_self e es, rfl⟩⟩
  · exact .error rfl

end LazyLisp
