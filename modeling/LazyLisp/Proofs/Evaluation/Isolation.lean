import LazyLisp.Proofs.Evaluation.Restoration

/-!
# Isolation

Environments are handed on by reference, and an evaluation in one of them may well run in
others, which it finds deferred. Still, what is done with an environment is seen in this
environment only: any number of operations, in any order and whether or not they fail,
leave all the other environments as they are (`run_isolates`).

* `Session`: operations on environments, one after the other;
* `EvalM.Leaves`: a computation leaves an environment as it is;
* `Session.leaves_run`: a session leaves every environment that is no subject of it;
* `Store.Gains`: a store has a new environment, which has nothing but its scopes in common
  with those that exist.

A single operation changes at most the environment that it is applied to. For evaluation
this is not plain, but it restores even that one. The scope of a block is put on and taken
off the same environment, whatever has become of it in the meantime.
-/

namespace LazyLisp

/-- What is done with environments. Every operation is applied to the environment at a
    location, and what it returns is dropped. -/
inductive Session
  /-- Nothing is done. -/
  | nothing
  /-- Two sessions in a row. The second starts only if the first ends without an error. -/
  | andThen (first second : Session)
  /-- A session whose error, if it ends with one, is caught. -/
  | attempt (body : Session)
  | push (l : Loc) (scope : Scope)
  | pop (l : Loc)
  | find (l : Loc) (name : String)
  | lookup (l : Loc) (name : String)
  | snapshot (l : Loc)
  | evaluate (l : Loc) (functions : FunctionTable) (depth : Nat) (e : Expr)
  /-- A block: a session inside one more scope on the environment at `l`. -/
  | block (l : Loc) (scope : Scope) (body : Session)

namespace Session

/-- The environments that operations of the session are applied to. -/
def subjects : Session → List Loc
  | nothing => []
  | andThen u v => u.subjects ++ v.subjects
  | attempt u => u.subjects
  | push l _ | pop l | find l _ | lookup l _ | snapshot l | evaluate l _ _ _ => [l]
  | block l _ u => l :: u.subjects

/-- Carries out a session. -/
def run : Session → EvalM Unit
  | nothing => pure ()
  | andThen u v => do
    u.run
    v.run
  | attempt u => fun s => (.ok (), (u.run s).2)
  | push l scope => EvalM.push l scope
  | pop l => do
    let _ ← EvalM.pop l
    return ()
  | find l name => do
    let _ ← EvalM.find l name
    return ()
  | lookup l name => do
    let _ ← EvalM.lookup l name
    return ()
  | snapshot l => do
    let _ ← EvalM.snapshot l
    return ()
  | evaluate l functions depth e => do
    let _ ← LazyLisp.evaluate functions depth e l
    return ()
  | block l scope u => EvalM.withScope l scope u.run

end Session

/-! ## What computations leave alone -/

/-- To take a scope off an environment changes no other. -/
theorem Store.eq_set_of_pop? {s t : Store} {l : Loc} {scope : Scope}
    (h : s.pop? l = some (scope, t)) : ∃ outer, t = s.set l outer := by
  unfold pop? at h
  split at h
  · cases h
  · next outer _ =>
    cases h
    exact ⟨outer, rfl⟩

namespace EvalM

variable {α β : Type} {l m : Loc}

/-- In every store that has an environment at `m`, the computation leaves this environment
    as it is, however it ends. -/
def Leaves (m : Loc) (x : EvalM α) : Prop :=
  ∀ s, m < s.size → m < (x s).2.size ∧ (x s).2.get m = s.get m

theorem Restores.leaves {x : EvalM α} (hx : x.Restores) (m : Loc) : x.Leaves m := fun s hm =>
  ⟨Nat.lt_of_lt_of_le hm (hx s).size_le, (hx s).get_eq m hm⟩

theorem Leaves.bind {x : EvalM α} {f : α → EvalM β} (hx : x.Leaves m)
    (hf : ∀ a, (f a).Leaves m) : (x >>= f).Leaves m := by
  intro s hm
  have h := hx s hm
  rcases hs : x s with ⟨r | a, t⟩
  · rw [bind_of_error f hs]
    rwa [hs] at h
  · rw [bind_of_ok f hs]
    rw [hs] at h
    obtain ⟨hlt, hget⟩ := hf a t h.1
    exact ⟨hlt, hget.trans h.2⟩

/-- To drop the result of a computation makes no difference. -/
theorem Leaves.drop {x : EvalM α} (hx : x.Leaves m) :
    (do let _ ← x; return () : EvalM Unit).Leaves m :=
  hx.bind fun _ => (restores_pure ()).leaves m

theorem leaves_push (hl : l ≠ m) (scope : Scope) : (push l scope).Leaves m := fun s hm =>
  ⟨(s.size_push l scope).symm ▸ hm, s.get_set_of_ne _ hl⟩

theorem leaves_pop (hl : l ≠ m) : (pop l).Leaves m := by
  intro s hm
  unfold pop
  split
  · next hpop =>
    obtain ⟨outer, rfl⟩ := Store.eq_set_of_pop? hpop
    exact ⟨(s.size_set l outer).symm ▸ hm, s.get_set_of_ne outer hl⟩
  · exact ⟨hm, rfl⟩

/-- The scope that is taken off need not be the one that was put on, but it is taken off the
    same environment. -/
theorem Leaves.withScope {body : EvalM α} (hbody : body.Leaves m) (hl : l ≠ m) (scope : Scope) :
    (withScope l scope body).Leaves m := by
  intro s hm
  obtain ⟨hlt, hget⟩ := leaves_push hl scope s hm
  obtain ⟨hlt, hget'⟩ := hbody (s.push l scope) hlt
  have hkept := hget'.trans hget
  simp only [EvalM.withScope, Store.bracket]
  split
  · next hpop =>
    obtain ⟨outer, rfl⟩ := Store.eq_set_of_pop? hpop
    exact ⟨(Store.size_set _ l outer).symm ▸ hlt, (Store.get_set_of_ne _ outer hl).trans hkept⟩
  · exact ⟨hlt, hkept⟩

end EvalM

open EvalM

/-- A session leaves every environment that is no subject of it. -/
theorem Session.leaves_run (u : Session) {m : Loc} (hm : m ∉ u.subjects) : u.run.Leaves m := by
  induction u with
  | nothing => exact (restores_pure ()).leaves m
  | andThen u v ihu ihv =>
    rw [subjects, List.mem_append, not_or] at hm
    exact (ihu hm.1).bind fun _ => ihv hm.2
  | attempt u ih => exact ih hm
  | push l scope => exact leaves_push (List.ne_of_not_mem_cons hm).symm scope
  | pop l => exact (leaves_pop (List.ne_of_not_mem_cons hm).symm).drop
  | find l name => exact ((restores_find l name).leaves m).drop
  | lookup l name => exact ((restores_lookup l name).leaves m).drop
  | snapshot l => exact ((restores_snapshot l).leaves m).drop
  | evaluate l functions depth e =>
    exact ((evaluate_restores functions depth e l).leaves m).drop
  | block l scope u ih =>
    rw [subjects, List.mem_cons, not_or] at hm
    exact (ih hm.2).withScope (Ne.symm hm.1) scope

/-! ## New environments -/

/-- The store `t` has one more environment than `s`, at a new location `l` and with the scopes
    `env`. It is none of those that exist: sessions with any of them leave it as it is,
    and sessions with it leave them. -/
structure Store.Gains (s t : Store) (l : Loc) (env : Env) : Prop where
  size_le : s.size ≤ l
  get_eq : t.get l = env
  keeps : t.Keeps s
  new_left : ∀ u : Session, l ∉ u.subjects → (u.run t).2.get l = env
  old_left : ∀ m < s.size, ∀ u : Session, m ∉ u.subjects → (u.run t).2.get m = s.get m

theorem Store.gains_alloc (s : Store) (env : Env) :
    s.Gains (s.alloc env).2 (s.alloc env).1 env where
  size_le := Nat.le_refl _
  get_eq := s.get_alloc_self env
  keeps := s.keeps_alloc env
  new_left u hu := by
    have hlt : (s.alloc env).1 < (s.alloc env).2.size := by
      rw [size_alloc]
      exact Nat.lt_succ_self _
    exact (u.leaves_run hu _ hlt).2.trans (s.get_alloc_self env)
  old_left m hm u hu := by
    have hlt : m < (s.alloc env).2.size := Nat.lt_of_lt_of_le hm (s.keeps_alloc env).size_le
    exact (u.leaves_run hu _ hlt).2.trans (s.get_alloc_of_lt env hm)

/-- Operations on some environments, with or without errors, leave all the others of the
    store as they are. A snapshot, and what is looked up and found bound to an
    expression that is not deferred, is a new environment, isolated from all that exist; for
    a deferred one it is the very environment that it was deferred to. -/
theorem run_isolates (s : Store) :
    (∀ (u : Session) (m : Loc), m < s.size → m ∉ u.subjects →
        m < (u.run s).2.size ∧ (u.run s).2.get m = s.get m) ∧
      ∀ l : Loc,
        (∃ copy t, EvalM.snapshot l s = (.ok copy, t) ∧ s.Gains t copy (s.get l)) ∧
        (∀ name bound depth, (s.get l).find name = some (bound, depth) →
          (∀ e home, bound ≠ .deferred e home) →
            ∃ outer t, EvalM.lookup l name s = (.ok (bound, outer), t) ∧
              s.Gains t outer ((s.get l).drop (depth + 1))) ∧
        ∀ name e home depth, (s.get l).find name = some (.deferred e home, depth) →
          EvalM.lookup l name s = (.ok (e, home), s) := by
  refine ⟨fun u m hm hu => u.leaves_run hu s hm, fun l => ⟨?_, ?_, ?_⟩⟩
  · exact ⟨_, _, rfl, s.gains_alloc (s.get l)⟩
  · intro name bound depth hfind hbound
    exact ⟨_, _, lookup_of_ne_deferred hfind hbound, s.gains_alloc _⟩
  · intro name e home depth hfind
    rw [EvalM.lookup, hfind]

/-- A block in which an evaluation puts a scope on another environment and fails there, and
    which then takes away more scopes than there are. -/
theorem run_isolates_unbalanced :
    let x : Expr := .letIn [("y", .int 1)] [.part .car (.var "y")]
    let s : Store := ⟨#[[[("x", .deferred x 1), ("z", .int 2)]], [[("y", .int 3)]]]⟩
    let u : Session := .block 0 [("z", .int 4)] <|
      .andThen (.attempt (.evaluate 0 .empty 9 (.var "x"))) <|
        .andThen (.pop 0) (.andThen (.pop 0) (.pop 0))
    (u.run s).1 = .error (.error .emptyEnvironment) ∧ (u.run s).2.get 0 = [] ∧
      1 < s.size ∧ 1 ∉ u.subjects ∧ (u.run s).2.get 1 = s.get 1 ∧
      EvalM.lookup 0 "x" s = (.ok (x, 1), s) ∧
      ∃ outer t, EvalM.lookup 0 "z" s = (.ok (.int 2, outer), t) ∧ s.Gains t outer [] := by
  intro x s u
  have hsize : 1 < s.size := by decide
  have hsubjects : 1 ∉ u.subjects := by decide
  obtain ⟨hrun, hnew⟩ := run_isolates s
  obtain ⟨-, hplain, hdeferred⟩ := hnew 0
  have hstop : (u.run s).1 = .error (.error .emptyEnvironment) := by
    unfold u s x
    cbv
  have hget : (u.run s).2.get 0 = [] := by
    unfold u s x
    cbv
  exact ⟨hstop, hget, hsize, hsubjects, (hrun u 1 hsize hsubjects).2, hdeferred "x" x 1 0 rfl,
    hplain "z" (.int 2) 0 rfl (by simp)⟩

end LazyLisp
