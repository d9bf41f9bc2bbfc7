import LazyLisp.Builtin
import LazyLisp.Env
import LazyLisp.FunctionTable

/-!
# Call by name with closures

A second evaluator, without any store. Its scopes never change: a `let` is
evaluated in a longer list of scopes, and the list it was started in is still
there for whoever holds it. An argument is bound as a *closure*, that is with the
scopes of its call, and so there are no locations and nothing is shared.

* `Bound`: what a name is bound to, an expression or a closure;
* `Scopes.resolve`: what a reference leads to, an expression with the scopes to
  reduce it in;
* `reduce`: the value of an expression in a list of scopes;
* `Expr.plain`: the expressions without deferred nodes, of which programs are
  made. Where a store has a deferred argument, there is a closure here.

The rules are those of `evaluate` read in this way, with the same budget for the
nesting depth.
-/

namespace LazyLisp

/-! ## Plain expressions -/

namespace Expr

mutual

/-- No node of the tree is deferred. -/
def plain : Expr → Bool
  | list es => plainAll es
  | part _ e => plain e
  | apply _ es => plainAll es
  | ite c t e => plain c && plain t && plain e
  | letIn bs es => plainBindings bs && plainAll es
  | call _ es => plainAll es
  | defun _ _ es => plainAll es
  | deferred _ _ => false
  | int _ | bool _ | str _ | var _ | empty => true

/-- No node of the trees is deferred. -/
def plainAll : List Expr → Bool
  | [] => true
  | e :: es => plain e && plainAll es

/-- No node of the bound trees is deferred. -/
def plainBindings : List (String × Expr) → Bool
  | [] => true
  | (_, e) :: bs => plain e && plainBindings bs

end

end Expr

/-- The bodies of all functions are made of plain expressions. -/
def FunctionTable.plain (functions : FunctionTable) : Bool :=
  functions.entries.all fun (_, function) => Expr.plainAll function.body

/-- All scopes bind plain expressions. -/
def Env.plain (env : Env) : Bool := env.all Expr.plainBindings

/-! ## Scopes -/

/-- What a name is bound to in scopes that never change. -/
inductive Bound
  /-- An expression, to be reduced in the scopes outside the one that binds it. -/
  | plain (expr : Expr)
  /-- An argument, to be reduced in the scopes of its call. -/
  | closure (expr : Expr) (scopes : List (List (String × Bound)))

/-- A list of scopes that never change, the innermost first. -/
abbrev Scopes := List (List (String × Bound))

/-- The scope of a `let`: its bindings as they are. -/
def plainScope (bindings : Scope) : List (String × Bound) :=
  bindings.map fun (x, e) => (x, .plain e)

/-- The scope of a call: the parameters bound to the arguments, each of them
    with the scopes of the call. -/
def closureScope (parameters : List String) (arguments : List Expr) (scopes : Scopes) :
    List (String × Bound) :=
  parameters.zip (arguments.map (.closure · scopes))

namespace Scopes

/-- The scopes of an environment that binds expressions only. -/
def ofEnv (env : Env) : Scopes := env.map plainScope

/-- What a name is bound to, and how many scopes lie inside the one that binds
    it: the innermost scope that binds the name decides, and in it the first
    binding. -/
def find (name : String) : Scopes → Option (Bound × Nat)
  | [] => none
  | scope :: outer =>
    match scope.lookup name with
    | some bound => some (bound, 0)
    | none => (find name outer).map fun (bound, depth) => (bound, depth + 1)

/-- The expression that a name is bound to, and the scopes to reduce it in. -/
def resolve (name : String) (ρ : Scopes) : Option (Expr × Scopes) :=
  match ρ.find name with
  | none => none
  | some (.plain e, depth) => some (e, ρ.drop (depth + 1))
  | some (.closure e σ, _) => some (e, σ)

end Scopes

/-! ## Reduction -/

/-- Reduces the expressions in order, and returns all their values. -/
def reduceAll (one : Expr → Except Stop Expr) : List Expr → Except Stop (List Expr)
  | [] => .ok []
  | e :: es => do
    let v ← one e
    let vs ← reduceAll one es
    return v :: vs

/-- Reduces the expressions of a body in order, and returns the value of the
    last. -/
def reduceBody (one : Expr → Except Stop Expr) : List Expr → Except Stop Expr
  | [] => .error (raise .emptyLet)
  | [e] => one e
  | e :: f :: fs => do
    let _ ← one e
    reduceBody one (f :: fs)

/-- The value of an expression in a list of scopes. A call takes two units of
    the budget, one for itself and one for the body that it enters. -/
def reduce (functions : FunctionTable) : Nat → Expr → Scopes → Except Stop Expr
  | 0, _, _ => .error .tooDeep
  | depth + 1, e, ρ =>
    match e with
    | .int n => .ok (.int n)
    | .bool b => .ok (.bool b)
    | .str t => .ok (.str t)
    | .var x =>
      match ρ.find x with
      | none => .error (raise (.unknownReference x))
      | some (.plain bound, d) => reduce functions depth bound (ρ.drop (d + 1))
      | some (.closure argument σ, _) => reduce functions depth argument σ
    | .list es => do return .list (← reduceAll (reduce functions depth · ρ) es)
    | .part which target => do which.run (← reduce functions depth target ρ)
    | .apply op es => do op.run (← reduceAll (reduce functions depth · ρ) es)
    | .ite c t e => do
      match ← reduce functions depth c ρ with
      | .bool true => reduce functions depth t ρ
      | .bool false => reduce functions depth e ρ
      | v => .error (raise (.notBoolean v))
    | .letIn bindings body => reduceBody (reduce functions depth · (plainScope bindings :: ρ)) body
    | .call f arguments => do
      let function ← functions.lookup f
      if function.arity = arguments.length then
        match depth with
        | 0 => .error .tooDeep
        | depth + 1 =>
          let scope := closureScope function.parameters arguments ρ
          reduceBody (reduce functions depth · [scope]) function.body
      else .error (raise (.arityMismatch f function.arity arguments.length))
    | .defun f _ _ => .error (raise (.definition f))
    | .empty => .error (raise .emptyExpression)
    | .deferred e _ => .error (raise (.deferredExpression e))

/-- A reference has the outcome of what it leads to. -/
theorem reduce_var (functions : FunctionTable) (depth : Nat) (x : String) (ρ : Scopes) :
    reduce functions (depth + 1) (.var x) ρ =
      match ρ.resolve x with
      | none => .error (raise (.unknownReference x))
      | some (e, σ) => reduce functions depth e σ := by
  rw [reduce, Scopes.resolve]
  rcases ρ.find x with _ | ⟨_ | _, _⟩ <;> rfl

end LazyLisp
