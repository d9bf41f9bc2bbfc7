import LazyLisp.Eval
import Mathlib

/-!
# Restoration

A `let` changes the environment it is evaluated in, and with it every other
name of that environment; but it does so only while it runs. Evaluation as a
whole leaves every environment that exists as it was, however it ends, and in
any store: environments may be deferred to from several places, from inside
themselves, or from inside the `let` that is being evaluated in them.

The argument is one about computations (`EvalM.Restores`), put together as the
evaluator puts them together. Only `EvalM.withScope` changes an environment that
exists: the scope on top of it when the body has ended is the one that was put
there, as the body has restored the environment *with* this scope, and so the
scope that comes off is the right one (`EvalM.withScope_apply`).

* `Store.Keeps`: one store has all the environments of another, unchanged;
* `evaluate_restores`: evaluation keeps the store it starts from;
* `evaluate_preserves_environments`: the same, said of a single environment.
-/

namespace LazyLisp

namespace Store

/-- The store `t` has all the environments of `s` as they are in `s`, and maybe
    more of them. -/
structure Keeps (t s : Store) : Prop where
  size_le : s.size ≤ t.size
  get_eq : ∀ l < s.size, t.get l = s.get l

theorem Keeps.refl (s : Store) : s.Keeps s := ⟨Nat.le_refl _, fun _ _ => rfl⟩

theorem Keeps.trans {s t u : Store} (hu : u.Keeps t) (ht : t.Keeps s) : u.Keeps s :=
  ⟨Nat.le_trans ht.size_le hu.size_le,
    fun l hl => (hu.get_eq l (Nat.lt_of_lt_of_le hl ht.size_le)).trans (ht.get_eq l hl)⟩

/-- A new environment leaves those that exist as they are. -/
theorem keeps_alloc (s : Store) (env : Env) : (s.alloc env).2.Keeps s :=
  ⟨by simp, fun _ hl => get_alloc_of_lt env hl⟩

/-- An environment that is not among those of `s` may change freely. -/
theorem Keeps.set_of_le {s t : Store} {l : Loc} (ht : t.Keeps s) (hl : s.size ≤ l) (env : Env) :
    (t.set l env).Keeps s := by
  refine ⟨by simpa using ht.size_le, fun m hm => ?_⟩
  rw [get_set_of_ne t env (Nat.ne_of_gt (Nat.lt_of_lt_of_le hm hl)), ht.get_eq m hm]

/-- An environment of `s` that was changed may be put back. -/
theorem Keeps.set_get {s t : Store} {l : Loc} {env : Env} (ht : t.Keeps (s.set l env)) :
    (t.set l (s.get l)).Keeps s := by
  have hsize : s.size ≤ t.size := by simpa using ht.size_le
  refine ⟨by simpa using hsize, fun m hm => ?_⟩
  by_cases h : l = m
  · subst h
    rw [get_set_self _ (Nat.lt_of_lt_of_le hm hsize)]
  · rw [get_set_of_ne t _ h, ht.get_eq m (by simpa using hm), get_set_of_ne s env h]

end Store

namespace EvalM

variable {α β : Type}

/-- The computation keeps every store that it is run in, however it ends. -/
def Restores (x : EvalM α) : Prop := ∀ s, (x s).2.Keeps s

theorem restores_pure (a : α) : (pure a : EvalM α).Restores := Store.Keeps.refl

theorem restores_stop (reason : Stop) : (stop reason : EvalM α).Restores := Store.Keeps.refl

theorem restores_fail (e : EvalError) : (fail e : EvalM α).Restores := Store.Keeps.refl

theorem restores_ofExcept (result : Except Stop α) : (ofExcept result).Restores :=
  Store.Keeps.refl

theorem bind_of_ok {s t : Store} {x : EvalM α} {a : α} (f : α → EvalM β)
    (h : x s = (.ok a, t)) : (x >>= f) s = f a t := by
  simp only [bind, h]

theorem bind_of_error {s t : Store} {x : EvalM α} {r : Stop} (f : α → EvalM β)
    (h : x s = (.error r, t)) : (x >>= f) s = (.error r, t) := by
  simp only [bind, h]

theorem Restores.bind {x : EvalM α} {f : α → EvalM β} (hx : x.Restores)
    (hf : ∀ a, (f a).Restores) : (x >>= f).Restores := by
  intro s
  have h := hx s
  rcases hs : x s with ⟨r | a, t⟩
  · rw [bind_of_error f hs]
    rwa [hs] at h
  · rw [bind_of_ok f hs]
    rw [hs] at h
    exact (hf a t).trans h

theorem restores_newEnv (env : Env) : (newEnv env).Restores := fun s => s.keeps_alloc env

theorem restores_snapshot (l : Loc) : (snapshot l).Restores := fun s => s.keeps_alloc (s.get l)

theorem restores_lookup (l : Loc) (name : String) : (lookup l name).Restores := by
  intro s
  unfold lookup
  split
  · exact restores_fail _ s
  · exact Store.Keeps.refl s
  · exact s.keeps_alloc _

theorem restores_find (l : Loc) (name : String) : (find l name).Restores := Store.Keeps.refl

/-- What is bound and not deferred is reduced in a new environment, which has
    the scopes outside the one that binds it. -/
theorem lookup_of_ne_deferred {s : Store} {l : Loc} {name : String} {bound : Expr} {depth : Nat}
    (h : (s.get l).find name = some (bound, depth)) (hbound : ∀ e home, bound ≠ .deferred e home) :
    lookup l name s = (.ok (bound, (s.alloc ((s.get l).drop (depth + 1))).1),
      (s.alloc ((s.get l).drop (depth + 1))).2) := by
  rw [lookup, h]
  cases bound with
  | deferred e home => exact absurd rfl (hbound e home)
  | _ => rfl

/-- A body that restores what it finds leaves its scope on top of the
    environment, so that this scope is what comes off, and the error of an
    environment without scopes never arises. -/
theorem withScope_apply {body : EvalM α} (hbody : body.Restores) {s : Store} {l : Loc}
    (hl : l < s.size) (scope : Scope) :
    withScope l scope body s =
      ((body (s.push l scope)).1, (body (s.push l scope)).2.set l (s.get l)) := by
  have htop : (body (s.push l scope)).2.get l = scope :: s.get l := by
    rw [(hbody (s.push l scope)).get_eq l (by simpa using hl), Store.push, Store.get_set_self _ hl]
  simp [withScope, Store.bracket, Store.pop?, htop]

theorem Restores.withScope {body : EvalM α} (hbody : body.Restores) (l : Loc) (scope : Scope) :
    (withScope l scope body).Restores := by
  intro s
  by_cases hl : l < s.size
  · rw [withScope_apply hbody hl]
    exact (hbody (s.push l scope)).set_get
  · -- No environment is at `l` now, so putting the scope there does nothing. By
    -- the end of the body there may be one: it is new, and it may lose a scope.
    rw [Nat.not_lt] at hl
    have hpush : s.push l scope = s := by
      simp [Store.push, Store.set, Array.setIfInBounds, show ¬l < s.envs.size from Nat.not_lt.2 hl]
    have hkeeps := hbody s
    simp only [EvalM.withScope, Store.bracket, hpush, Store.pop?]
    split
    · next h =>
      split at h
      · cases h
      · cases h
        exact hkeeps.set_of_le hl _
    · exact hkeeps

end EvalM

open EvalM

section Evaluation

variable {one : Expr → EvalM Expr}

theorem restores_evaluateAll (hone : ∀ e, (one e).Restores) (es : List Expr) :
    (evaluateAll one es).Restores := by
  induction es with
  | nil => exact restores_pure []
  | cons e es ih => exact (hone e).bind fun v => ih.bind fun vs => restores_pure (v :: vs)

theorem restores_evaluateLast (hone : ∀ e, (one e).Restores) (e : Expr) (es : List Expr) :
    (evaluateLast one e es).Restores := by
  induction es generalizing e with
  | nil => exact hone e
  | cons f fs ih => exact (hone e).bind fun _ => ih f

end Evaluation

/-- Evaluation keeps the store it starts from, whatever the store, the place of
    evaluation and the way it ends. -/
theorem evaluate_restores (functions : FunctionTable) (depth : Nat) (e : Expr) (l : Loc) :
    (evaluate functions depth e l).Restores := by
  induction depth generalizing e l with
  | zero => exact restores_stop _
  | succ depth ih =>
    have hall (es : List Expr) := restores_evaluateAll (fun e => ih e l) es
    cases e with
    | int n => exact restores_pure _
    | bool b => exact restores_pure _
    | str t => exact restores_pure _
    | var x => exact (restores_lookup l x).bind fun (bound, home) => ih bound home
    | list es => exact (hall es).bind fun vs => restores_pure (Expr.list vs)
    | part which target => exact (ih target l).bind fun v => restores_ofExcept (which.run v)
    | apply op es => exact (hall es).bind fun vs => restores_ofExcept (op.run vs)
    | ite c t e =>
      refine (ih c l).bind fun v => ?_
      split
      · exact ih t l
      · exact ih e l
      · exact restores_fail _
    | letIn bindings body =>
      cases body with
      | nil => exact restores_fail _
      | cons e es => exact (restores_evaluateLast (fun e => ih e l) e es).withScope l bindings
    | call f arguments =>
      refine (restores_ofExcept (functions.lookup f)).bind fun function => ?_
      split
      · exact (restores_snapshot l).bind fun caller => (restores_newEnv []).bind fun callee =>
          ih _ callee
      · exact restores_fail _
    | defun f parameters body => exact restores_fail _
    | empty => exact restores_fail _
    | deferred e home => exact restores_fail _

/-- Every environment that existed before an evaluation exists after it, with
    the scopes that it had. -/
theorem evaluate_preserves_environments (functions : FunctionTable) (depth : Nat) (e : Expr)
    (l : Loc) (s : Store) {m : Loc} (hm : m < s.size) :
    m < (evaluate functions depth e l s).2.size ∧
      (evaluate functions depth e l s).2.get m = s.get m :=
  have hkeeps := evaluate_restores functions depth e l s
  ⟨Nat.lt_of_lt_of_le hm hkeeps.size_le, hkeeps.get_eq m hm⟩

/-- An environment whose only entry is deferred to this environment itself:
    while a `let` is evaluated in it, the entry puts a second scope on it, and
    fails there. -/
theorem evaluate_preserves_environments_selfDeferred :
    let s : Store := ⟨#[[[("x", .deferred (.letIn [("y", .int 1)] [.part .car (.var "y")]) 0)]]]⟩
    let e : Expr := .letIn [("z", .int 2)] [.var "z", .var "x"]
    (evaluate .empty 9 e 0 s).1 = .error (.error (.notList .car (.int 1))) ∧
      0 < s.size ∧ 0 < (evaluate .empty 9 e 0 s).2.size ∧
      (evaluate .empty 9 e 0 s).2.get 0 = s.get 0 :=
  ⟨rfl, by decide, evaluate_preserves_environments _ _ _ _ _ (by decide)⟩

end LazyLisp
