import LazyLisp.Builtin
import LazyLisp.FunctionTable
import LazyLisp.Store

/-!
# Evaluation

Expressions are reduced to values by name: what a `let` binds and what a call
passes is not evaluated until it is referred to, and then each time anew.

* A reference is evaluated in the scopes outside the one that binds it, and an
  argument in the environment of the call.
* A `let` puts its bindings, as they are, on the very environment it is
  evaluated in, and takes them off when its body has ended in any way. Every
  expression of the body is evaluated, and the last gives the value.
* A call evaluates the body of the function as a `let` of its parameters, in a
  new environment: the body sees the parameters and the function table only.
  All the arguments of a call share one snapshot of the environment of the call.

The evaluator recurses on a budget for the nesting depth, and running out of it
(`Stop.tooDeep`) is different from any error of the program.
-/

namespace LazyLisp

/-- Evaluates the expressions in order, and returns all their values. -/
def evaluateAll (one : Expr → EvalM Expr) : List Expr → EvalM (List Expr)
  | [] => pure []
  | e :: es => do
    let v ← one e
    let vs ← evaluateAll one es
    return v :: vs

/-- Evaluates the expressions in order, of which there is at least one, and
    returns the value of the last. -/
def evaluateLast (one : Expr → EvalM Expr) : Expr → List Expr → EvalM Expr
  | e, [] => one e
  | e, f :: fs => do
    let _ ← one e
    evaluateLast one f fs

/-- The scope of a call: the parameters bound to the arguments, each of them
    deferred to the environment at `home`. -/
def argumentScope (parameters : List String) (arguments : List Expr) (home : Loc) : Scope :=
  parameters.zip (arguments.map (.deferred · home))

/-- The value of an expression in the environment at `env`. -/
def evaluate (functions : FunctionTable) : Nat → Expr → Loc → EvalM Expr
  | 0, _, _ => .stop .tooDeep
  | depth + 1, e, env =>
    match e with
    | .int n => pure (.int n)
    | .bool b => pure (.bool b)
    | .str t => pure (.str t)
    | .var x => do
      let (bound, home) ← EvalM.lookup env x
      evaluate functions depth bound home
    | .list es => do return .list (← evaluateAll (evaluate functions depth · env) es)
    | .part which target => do
      EvalM.ofExcept (which.run (← evaluate functions depth target env))
    | .apply op es => do
      EvalM.ofExcept (op.run (← evaluateAll (evaluate functions depth · env) es))
    | .ite c t e => do
      match ← evaluate functions depth c env with
      | .bool true => evaluate functions depth t env
      | .bool false => evaluate functions depth e env
      | v => .fail (.notBoolean v)
    | .letIn _ [] => .fail .emptyLet
    | .letIn bindings (e :: es) =>
      .withScope env bindings (evaluateLast (evaluate functions depth · env) e es)
    | .call f arguments => do
      let function ← EvalM.ofExcept (functions.lookup f)
      if function.arity = arguments.length then
        let caller ← EvalM.snapshot env
        let callee ← EvalM.newEnv []
        let scope := argumentScope function.parameters arguments caller
        evaluate functions depth (.letIn scope function.body) callee
      else .fail (.arityMismatch f function.arity arguments.length)
    | .defun f _ _ => .fail (.definition f)
    | .empty => .fail .emptyExpression
    | .deferred e _ => .fail (.deferredExpression e)

/-- The value of an expression in a new environment with the given scopes, and
    these scopes as they are afterwards. -/
def evaluateIn (functions : FunctionTable) (depth : Nat) (env : Env) (e : Expr) :
    Except Stop Expr × Env :=
  let (home, s) := Store.empty.alloc env
  let (result, s) := evaluate functions depth e home s
  (result, s.get home)

/-- The same for expressions evaluated one after the other in one environment. -/
def evaluateAllIn (functions : FunctionTable) (depth : Nat) (env : Env) (es : List Expr) :
    Except Stop (List Expr) × Env :=
  let (home, s) := Store.empty.alloc env
  let (result, s) := evaluateAll (evaluate functions depth · home) es s
  (result, s.get home)

end LazyLisp
