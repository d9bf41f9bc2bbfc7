import LazyLisp.EvalError
import LazyLisp.Expr.Same

/-!
# Operators

What the operators and the parts of lists do with values. Arithmetic takes
integers only, and finds the first operand that is none; subtraction and
division start from their first operand, so they need one. Division rounds
toward zero.
-/

namespace LazyLisp

/-- The integers that the operands of an arithmetic operator are. -/
def integers (op : Op) : List Expr → Except Stop (List Int)
  | [] => .ok []
  | .int n :: es => do return n :: (← integers op es)
  | e :: _ => .error (raise (.notInteger op e))

/-- The quotient of two integers, rounded toward zero: that of their absolute
    values, rounded down, and with the other sign if just one of the two is
    negative. -/
def divideInt (a b : Int) : Except Stop Int :=
  if b = 0 then .error (raise .divisionByZero)
  else
    let q := Int.fdiv a.natAbs b.natAbs
    .ok (if a < 0 ↔ b < 0 then q else -q)

/-- Divides by one divisor after the other. -/
def divideByAll (a : Int) : List Int → Except Stop Int
  | [] => .ok a
  | b :: bs => do divideByAll (← divideInt a b) bs

/-- The first operand is the same as each of the others. -/
def allSame : List Expr → Bool
  | [] => true
  | e :: es => es.all e.same

namespace Op

/-- The result of an operator on its operands. -/
def run (op : Op) (operands : List Expr) : Except Stop Expr :=
  match op with
  | equal => .ok (.bool (allSame operands))
  | add => do return .int ((← integers add operands).foldl (· + ·) 0)
  | multiply => do return .int ((← integers multiply operands).foldl (· * ·) 1)
  | subtract => do
    match ← integers subtract operands with
    | [] => .error (raise (.missingOperand subtract))
    | n :: ns => return .int (ns.foldl (· - ·) n)
  | divide => do
    match ← integers divide operands with
    | [] => .error (raise (.missingOperand divide))
    | n :: ns => return .int (← divideByAll n ns)

end Op

namespace Part

/-- The part of a list. -/
def run (which : Part) : Expr → Except Stop Expr
  | .list [] => .error (raise (.emptyList which))
  | .list (e :: es) =>
    match which with
    | car => .ok e
    | cdr => .ok (.list es)
  | e => .error (raise (.notList which e))

end Part

end LazyLisp
