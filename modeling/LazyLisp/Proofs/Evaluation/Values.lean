import LazyLisp.Proofs.Evaluation.Agreement
import LazyLisp.Proofs.Evaluation.Operators

/-!
# Values

What evaluation returns, from any store whatsoever: integers, truth values, texts, and
lists of such (`evaluate_yields_value`). These are values everywhere, as any evaluation
returns them as they are (`evaluate_value`). So nothing but values is ever returned, and
to evaluate once more what was returned changes nothing (`evaluate_returns_value`). Where
no value is returned, this is for want of depth or because of an error (`Due`), even where
the digit limit is what is reported: then there was an error, whose message cannot be written.

A list is evaluated element by element, so that values have a nesting of their own
(`Expr.valueWithin`). It never exceeds the budget that the value was found with, and so
this budget is enough to evaluate the value once more.
-/

namespace LazyLisp

namespace Expr

/-- Integers, truth values and texts are values, and so are lists of values. -/
inductive IsValue : Expr → Prop
  | int (n : Int) : IsValue (int n)
  | bool (b : Bool) : IsValue (bool b)
  | str (t : String) : IsValue (str t)
  | list {es : List Expr} : (∀ e ∈ es, IsValue e) → IsValue (list es)

/-- A value whose lists are nested less than `depth` deep. -/
def valueWithin : Nat → Expr → Bool
  | _ + 1, int _ | _ + 1, bool _ | _ + 1, str _ => true
  | depth + 1, list es => es.all (valueWithin depth)
  | _, _ => false

variable {depth : Nat}

theorem valueWithin_list {es : List Expr} :
    (list es).valueWithin (depth + 1) = true ↔ ∀ e ∈ es, e.valueWithin depth = true := by
  rw [valueWithin, List.all_eq_true]

theorem valueWithin_succ {v : Expr} (h : v.valueWithin depth = true) :
    v.valueWithin (depth + 1) = true := by
  induction depth generalizing v with
  | zero => simp [valueWithin] at h
  | succ depth ih =>
    cases v with
    | list es => exact valueWithin_list.2 fun e he => ih (valueWithin_list.1 h e he)
    | int _ | bool _ | str _ => rfl
    | _ => simp [valueWithin] at h

theorem valueWithin_of_le {v : Expr} (h : v.valueWithin depth = true) {depth' : Nat}
    (hle : depth ≤ depth') : v.valueWithin depth' = true := by
  induction hle with
  | refl => exact h
  | step _ ih => exact valueWithin_succ ih

theorem isValue_of_valueWithin {v : Expr} (h : v.valueWithin depth = true) : v.IsValue := by
  induction depth generalizing v with
  | zero => simp [valueWithin] at h
  | succ depth ih =>
    cases v with
    | int n => exact .int n
    | bool b => exact .bool b
    | str t => exact .str t
    | list es => exact .list fun e he => ih (valueWithin_list.1 h e he)
    | _ => simp [valueWithin] at h

theorem plain_of_valueWithin {v : Expr} (h : v.valueWithin depth = true) : v.plain = true := by
  induction depth generalizing v with
  | zero => simp [valueWithin] at h
  | succ depth ih =>
    cases v with
    | list es => exact plainAll_iff.2 fun e he => ih (valueWithin_list.1 h e he)
    | int _ | bool _ | str _ => rfl
    | _ => simp [valueWithin] at h

end Expr

theorem Op.valueWithin_run {op : Op} {es : List Expr} {v : Expr} (h : op.run es = .ok v)
    (depth : Nat) : v.valueWithin (depth + 1) = true := by
  rcases (op.delivers_run es).of_ok h with ⟨n, rfl⟩ | ⟨b, rfl⟩ <;> rfl

theorem Part.valueWithin_run {which : Part} {v w : Expr} {depth : Nat} (h : which.run v = .ok w)
    (hv : v.valueWithin depth = true) : w.valueWithin depth = true := by
  obtain ⟨es, rfl, hw⟩ := (which.delivers_run v).of_ok h
  rcases depth with _ | depth
  · simp [Expr.valueWithin] at hv
  · rw [Expr.valueWithin_list] at hv
    rcases hw with hw | ⟨ws, hws, rfl⟩
    · exact Expr.valueWithin_succ (hv w hw)
    · exact Expr.valueWithin_list.2 fun e he => hv e (hws he)

/-! ## What computations yield -/

section Due

variable {α β : Type} {P : α → Prop} {Q : β → Prop} {r : Except Stop α}

/-- The outcome is something with `P`, or there is none for want of depth or because of an
    error. -/
inductive Due (P : α → Prop) : Except Stop α → Prop
  | ok {a : α} : P a → Due P (.ok a)
  | tooDeep : Due P (.error .tooDeep)
  | raise (cause : EvalError) : Due P (.error (raise cause))

theorem Due.map {f : α → β} (h : Due P r) (hf : ∀ a, P a → Q (f a)) : Due Q (r.map f) := by
  cases h with
  | ok ha => exact .ok (hf _ ha)
  | tooDeep => exact .tooDeep
  | raise cause => exact .raise cause

theorem Due.imp {P' : α → Prop} (h : Due P r) (hP : ∀ a, P a → P' a) : Due P' r := by
  have hid := h.map (f := id) hP
  rwa [Except.map_id] at hid

theorem Due.of_ok {a : α} (h : Due P r) (hr : r = .ok a) : P a := by
  cases h with
  | ok ha =>
    cases hr
    exact ha
  | tooDeep | raise _ => cases hr

theorem Delivers.due {P' : α → Prop} (h : Delivers P r) (hr : ∀ a, r = .ok a → P' a) :
    Due P' r := by
  cases h with
  | ok _ => exact .ok (hr _ rfl)
  | error _ => exact .raise _

theorem FunctionTable.due_lookup (functions : FunctionTable) (f : String) :
    Due (fun _ => True) (functions.lookup f) := by
  rw [FunctionTable.lookup]
  split
  · exact .ok trivial
  · exact .raise _

end Due

namespace EvalM

variable {α β : Type} {P : α → Prop} {Q : β → Prop}

/-- Whatever the store, the computation returns nothing but what has `P`, and stops only for
    want of depth or with an error. -/
def Yields (P : α → Prop) (x : EvalM α) : Prop := ∀ s, Due P (x s).1

theorem yields_pure {a : α} (h : P a) : Yields P (pure a) := fun _ => .ok h

theorem yields_fail (e : EvalError) : Yields P (fail e : EvalM α) := fun _ => .raise e

theorem yields_ofExcept {r : Except Stop α} (h : Due P r) : Yields P (ofExcept r) := fun _ => h

theorem Yields.bind {x : EvalM α} {f : α → EvalM β} (hx : Yields P x)
    (hf : ∀ a, P a → Yields Q (f a)) : Yields Q (x >>= f) := by
  intro s
  have h := hx s
  rcases hs : x s with ⟨r, t⟩
  rw [hs] at h
  cases h with
  | ok ha =>
    rw [bind_of_ok f hs]
    exact hf _ ha t
  | tooDeep =>
    rw [bind_of_error f hs]
    exact .tooDeep
  | raise cause =>
    rw [bind_of_error f hs]
    exact .raise cause

theorem Yields.withScope {x : EvalM α} (hx : Yields P x) (l : Loc) (scope : Scope) :
    Yields P (withScope l scope x) := by
  intro s
  simp only [EvalM.withScope, Store.bracket]
  split
  · exact hx _
  · exact .raise _

theorem yields_lookup (l : Loc) (name : String) : Yields (fun _ => True) (lookup l name) := by
  intro s
  unfold lookup
  split
  · exact yields_fail _ s
  · exact .ok trivial
  · exact .ok trivial

theorem yields_newEnv (env : Env) : Yields (fun _ => True) (newEnv env) := fun _ => .ok trivial

theorem yields_snapshot (l : Loc) : Yields (fun _ => True) (snapshot l) := fun _ => .ok trivial

end EvalM

/-! ## Evaluation -/

section Evaluation

open EvalM

variable {P : Expr → Prop} {one : Expr → EvalM Expr}

theorem yields_evaluateAll (hone : ∀ e, Yields P (one e)) (es : List Expr) :
    Yields (fun vs => ∀ v ∈ vs, P v) (evaluateAll one es) := by
  induction es with
  | nil => exact yields_pure (by simp)
  | cons e es ih =>
    refine (hone e).bind fun v hv => ih.bind fun vs hvs => yields_pure ?_
    exact List.forall_mem_cons.2 ⟨hv, hvs⟩

theorem yields_evaluateLast (hone : ∀ e, Yields P (one e)) (e : Expr) (es : List Expr) :
    Yields P (evaluateLast one e es) := by
  induction es generalizing e with
  | nil => exact hone e
  | cons f fs ih => exact (hone e).bind fun _ _ => ih f

/-- Evaluation returns values only, with lists that are nested no deeper than the
    evaluation was allowed to, and stops only for want of depth or with an error. -/
theorem evaluate_yields_value (functions : FunctionTable) (depth : Nat) (e : Expr) (l : Loc) :
    Yields (·.valueWithin depth = true) (evaluate functions depth e l) := by
  induction depth generalizing e l with
  | zero => exact fun _ => .tooDeep
  | succ depth ih =>
    -- Only a list is nested deeper than what it is made of; the other forms return what
    -- was returned to them, a part of it, or no list at all.
    have ih' (e : Expr) (l : Loc) :
        Yields (·.valueWithin (depth + 1) = true) (evaluate functions depth e l) :=
      fun s => (ih e l s).imp fun _ => Expr.valueWithin_succ
    have hall (es : List Expr) := yields_evaluateAll (ih · l) es
    cases e with
    | int _ | bool _ | str _ => exact yields_pure rfl
    | defun _ _ _ | empty | deferred _ _ => exact yields_fail _
    | var x => exact (yields_lookup l x).bind fun bound _ => ih' _ _
    | list es =>
      refine (hall es).bind fun vs hvs => yields_pure ?_
      exact Expr.valueWithin_list.2 hvs
    | part which target =>
      refine (ih' target l).bind fun v hv => yields_ofExcept ?_
      exact (which.delivers_run v).due fun w hw => which.valueWithin_run hw hv
    | apply op es =>
      refine (hall es).bind fun vs _ => yields_ofExcept ?_
      exact (op.delivers_run vs).due fun v hv => op.valueWithin_run hv depth
    | ite c t e =>
      refine (ih' c l).bind fun v _ => ?_
      split
      · exact ih' t l
      · exact ih' e l
      · exact yields_fail _
    | letIn bindings body =>
      cases body with
      | nil => exact yields_fail _
      | cons e es => exact (yields_evaluateLast (ih' · l) e es).withScope l bindings
    | call f arguments =>
      refine (yields_ofExcept (functions.due_lookup f)).bind fun function _ => ?_
      dsimp only
      split
      · exact (yields_snapshot l).bind fun caller _ => (yields_newEnv []).bind fun callee _ =>
          ih' _ _
      · exact yields_fail _

theorem evaluateAll_value {es : List Expr} {s : Store} (h : ∀ e ∈ es, one e s = (.ok e, s)) :
    evaluateAll one es s = (.ok es, s) := by
  induction es with
  | nil => rfl
  | cons e es ih =>
    rw [List.forall_mem_cons] at h
    refine (bind_of_ok _ h.1).trans ?_
    exact bind_of_ok _ (ih h.2)

/-- A value is returned as it is, whatever the functions, the environment and the
    store, which is left alone. -/
theorem evaluate_value (functions : FunctionTable) {depth : Nat} {v : Expr}
    (hv : v.valueWithin depth = true) (l : Loc) (s : Store) :
    evaluate functions depth v l s = (.ok v, s) := by
  induction depth generalizing v with
  | zero => simp [Expr.valueWithin] at hv
  | succ depth ih =>
    cases v with
    | int _ | bool _ | str _ => rfl
    | list es =>
      exact bind_of_ok _ (evaluateAll_value fun e he => ih (Expr.valueWithin_list.1 hv e he))
    | _ => simp [Expr.valueWithin] at hv

/-- What evaluation returns is a value, from whatever store and with whatever functions; and
    with any others it is returned as it is, within the budget that it was found with. -/
theorem evaluate_returns_value {functions : FunctionTable} {depth : Nat} {e : Expr} {l : Loc}
    {s : Store} {v : Expr} (h : (evaluate functions depth e l s).1 = .ok v) :
    v.IsValue ∧ ∀ (functions' : FunctionTable) (depth' : Nat) (l' : Loc) (s' : Store),
      depth ≤ depth' → evaluate functions' depth' v l' s' = (.ok v, s') := by
  have hv := (evaluate_yields_value functions depth e l s).of_ok h
  refine ⟨Expr.isValue_of_valueWithin hv, fun functions' depth' l' s' hle => ?_⟩
  exact evaluate_value functions' (Expr.valueWithin_of_le hv hle) l' s'

/-- A list of a part of another, found through a name that is deferred by hand to the same
    name in another environment, and of the result of a call. -/
theorem evaluate_returns_value_deferred :
    let functions : FunctionTable := ⟨[("f", ⟨["x"], [.apply .equal []]⟩)]⟩
    let s : Store := ⟨#[[[("x", .deferred (.var "x") 1)]], [[("x", .list [.int 1, .str "a"])]]]⟩
    let e : Expr := .letIn [("y", .var "x")] [.list [.part .cdr (.var "y"), .call "f" [.empty]]]
    let v : Expr := .list [.list [.str "a"], .bool true]
    (evaluate functions 9 e 0 s).1 = .ok v ∧ v.IsValue ∧
      ∀ (functions' : FunctionTable) (depth' : Nat) (l' : Loc) (s' : Store),
        9 ≤ depth' → evaluate functions' depth' v l' s' = (.ok v, s') := by
  intro functions s e v
  have h : (evaluate functions 9 e 0 s).1 = .ok v := by
    unfold functions s e v
    cbv
  exact ⟨h, evaluate_returns_value h⟩

end Evaluation

end LazyLisp
