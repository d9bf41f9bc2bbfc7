import LazyLisp.Expr

/-!
# Sameness of expressions

Two trees may be compared in two ways:

* `Expr.sameTree`, node by node: the nodes are of one kind, and what they are
  made of is the same. It is defined on all trees;
* `Expr.same`, as the operator `=` compares values: two lists by their lengths
  and then element by element, in the same way again, and anything else as
  trees.

An integer is never the same as a truth value, at any depth.
-/

namespace LazyLisp

namespace Expr

mutual

/-- The two trees have the same shape and the same names and literals. -/
def sameTree : Expr → Expr → Bool
  | int m, int n => m == n
  | bool a, bool b => a == b
  | str s, str t => s == t
  | var x, var y => x == y
  | list es, list fs => sameAll es fs
  | part p e, part q f => p == q && sameTree e f
  | apply o es, apply p fs => o == p && sameAll es fs
  | ite c t e, ite c' t' e' => sameTree c c' && sameTree t t' && sameTree e e'
  | letIn bs es, letIn cs fs => sameBindings bs cs && sameAll es fs
  | call f es, call g fs => f == g && sameAll es fs
  | defun f ps es, defun g qs fs => f == g && ps == qs && sameAll es fs
  | empty, empty => true
  | deferred e l, deferred f m => sameTree e f && l == m
  | _, _ => false

/-- Lists of trees of the same length, the same position by position. -/
def sameAll : List Expr → List Expr → Bool
  | [], [] => true
  | e :: es, f :: fs => sameTree e f && sameAll es fs
  | _, _ => false

/-- Bindings of the same names, in the same order, to the same trees. -/
def sameBindings : List (String × Expr) → List (String × Expr) → Bool
  | [], [] => true
  | (x, e) :: bs, (y, f) :: cs => x == y && sameTree e f && sameBindings bs cs
  | _, _ => false

end

mutual

/-- The two values are the same. -/
def same : Expr → Expr → Bool
  | list es, list fs => es.length == fs.length && samePairs es fs
  | a, b => a.sameTree b

/-- The values are the same pair by pair, as far as both lists go. -/
def samePairs : List Expr → List Expr → Bool
  | e :: es, f :: fs => same e f && samePairs es fs
  | _, _ => true

end

end Expr

end LazyLisp
