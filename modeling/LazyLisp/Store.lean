import LazyLisp.Env
import LazyLisp.EvalError

/-!
# Stores

Environments change: a `let` puts its scope on the environment it is evaluated
in, for as long as its body runs, and whoever else holds this environment sees
the scope come and go. So environments live in a *store*, and are referred to by
their locations; a location, once given out, stays that of the same environment.

* `EvalM`: computations over a store, which leave a store behind also when they
  stop without a value;
* `EvalM.lookup`: what a name is bound to, with the location of the environment
  to reduce it in;
* `EvalM.withScope`: a computation inside one more scope, which is removed on
  every way out.
-/

namespace LazyLisp

/-- The environments that exist, by location. -/
structure Store where
  envs : Array Env
  deriving Repr

namespace Store

/-- The store in which nothing exists yet. -/
def empty : Store := ⟨#[]⟩

/-- The number of locations given out. -/
def size (s : Store) : Nat := s.envs.size

/-- The environment at a location. -/
def get (s : Store) (l : Loc) : Env := s.envs[l]?.getD []

/-- Puts another environment at a location that was given out. -/
def set (s : Store) (l : Loc) (env : Env) : Store := ⟨s.envs.setIfInBounds l env⟩

/-- Gives out a new location, and puts an environment there. -/
def alloc (s : Store) (env : Env) : Loc × Store := (s.size, ⟨s.envs.push env⟩)

/-- Puts a scope on the environment at a location. -/
def push (s : Store) (l : Loc) (scope : Scope) : Store := s.set l (scope :: s.get l)

/-- Takes the innermost scope off the environment at a location. -/
def pop? (s : Store) (l : Loc) : Option (Scope × Store) :=
  match s.get l with
  | [] => none
  | scope :: outer => some (scope, s.set l outer)

/-- Runs `body` with one more scope on the environment at a location, and takes
    a scope off this environment afterwards. If `body` has left none to take
    off, `unpopped` says what becomes of its result. -/
def bracket {β : Type} (s : Store) (l : Loc) (scope : Scope) (body : Store → β × Store)
    (unpopped : β → β) : β × Store :=
  let (result, s) := body (s.push l scope)
  match s.pop? l with
  | some (_, s) => (result, s)
  | none => (unpopped result, s)

@[simp] theorem size_set (s : Store) (l : Loc) (env : Env) : (s.set l env).size = s.size := by
  simp [set, size]

@[simp] theorem size_push (s : Store) (l : Loc) (scope : Scope) :
    (s.push l scope).size = s.size := by
  simp [push]

@[simp] theorem size_alloc (s : Store) (env : Env) : (s.alloc env).2.size = s.size + 1 := by
  simp [alloc, size]

/-- Nothing is at a location that was not given out. -/
theorem get_of_size_le {s : Store} {l : Loc} (h : s.size ≤ l) : s.get l = [] := by
  simp [get, Array.getElem?_eq_none (show s.envs.size ≤ l from h)]

@[simp] theorem get_set_self {s : Store} {l : Loc} (env : Env) (h : l < s.size) :
    (s.set l env).get l = env := by
  have h' : l < s.envs.size := h
  simp [get, set, h']

@[simp] theorem get_set_of_ne (s : Store) {l m : Loc} (env : Env) (h : l ≠ m) :
    (s.set l env).get m = s.get m := by
  simp [get, set, h]

@[simp] theorem get_alloc_self (s : Store) (env : Env) :
    (s.alloc env).2.get (s.alloc env).1 = env := by
  simp [get, alloc, size]

/-- A new environment leaves those that exist as they are. -/
theorem get_alloc_of_lt {s : Store} {l : Loc} (env : Env) (h : l < s.size) :
    (s.alloc env).2.get l = s.get l := by
  have h' : l < s.envs.size := h
  simp [get, alloc, Array.getElem?_push, Nat.ne_of_lt h']

/-- Putting an environment back where it was changes nothing. -/
@[simp] theorem set_get_self (s : Store) (l : Loc) : s.set l (s.get l) = s := by
  have h : s.envs.setIfInBounds l (s.get l) = s.envs := by
    apply Array.ext_getElem?
    intro i
    by_cases hi : l = i
    · subst hi
      by_cases hl : l < s.envs.size <;> simp [get, hl]
    · simp [hi]
  rw [set, h]

@[simp] theorem set_set (s : Store) (l : Loc) (env env' : Env) :
    (s.set l env).set l env' = s.set l env' := by
  simp [set]

/-- What was put on an environment comes off it again, and leaves it as it
    was. -/
theorem pop?_push {s : Store} {l : Loc} (scope : Scope) (h : l < s.size) :
    (s.push l scope).pop? l = some (scope, s) := by
  simp [push, pop?, h]

end Store

/-- Computations over a store. -/
def EvalM (α : Type) : Type := Store → Except Stop α × Store

namespace EvalM

instance : Monad EvalM where
  pure a := fun s => (.ok a, s)
  bind x f := fun s =>
    match x s with
    | (.ok a, s) => f a s
    | (.error stop, s) => (.error stop, s)

/-- Stops the computation. -/
def stop {α : Type} (reason : Stop) : EvalM α := fun s => (.error reason, s)

/-- Stops the computation with an error. -/
def fail {α : Type} (e : EvalError) : EvalM α := stop (raise e)

/-- A computation that does not use the store. -/
def ofExcept {α : Type} (result : Except Stop α) : EvalM α := fun s => (result, s)

/-- A new environment. -/
def newEnv (env : Env) : EvalM Loc := fun s =>
  let (l, s) := s.alloc env
  (.ok l, s)

/-- A new environment with the scopes that the one at `l` has now. -/
def snapshot (l : Loc) : EvalM Loc := fun s => newEnv (s.get l) s

/-- Puts a scope on the environment at `l`. -/
def push (l : Loc) (scope : Scope) : EvalM Unit := fun s => (.ok (), s.push l scope)

/-- Takes the innermost scope off the environment at `l`. -/
def pop (l : Loc) : EvalM Scope := fun s =>
  match s.pop? l with
  | some (scope, s) => (.ok scope, s)
  | none => (.error (raise .emptyEnvironment), s)

/-- What a name is bound to in the environment at `l`, and the depth of the
    scope that binds it. -/
def find (l : Loc) (name : String) : EvalM (Option (Expr × Nat)) := fun s =>
  (.ok ((s.get l).find name), s)

/-- The expression that a name is bound to in the environment at `l`, and the
    location of the environment to reduce it in: for a deferred argument the one
    it carries, and otherwise a new one, with the scopes outside the one that
    binds the name. -/
def lookup (l : Loc) (name : String) : EvalM (Expr × Loc) := fun s =>
  match (s.get l).find name with
  | none => fail (.unknownReference name) s
  | some (.deferred e home, _) => (.ok (e, home), s)
  | some (e, depth) =>
    let (home, s) := s.alloc ((s.get l).drop (depth + 1))
    (.ok (e, home), s)

/-- Runs `body` with one more scope on the environment at `l`. The scope is
    removed however `body` ends; if there is none to remove by then, that error
    takes the place of the result. -/
def withScope {α : Type} (l : Loc) (scope : Scope) (body : EvalM α) : EvalM α := fun s =>
  s.bracket l scope body fun _ => .error (raise .emptyEnvironment)

end EvalM

end LazyLisp
