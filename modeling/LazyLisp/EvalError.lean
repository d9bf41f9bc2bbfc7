import LazyLisp.Expr.Description
import LazyLisp.Expr.Writable

/-!
# Evaluation errors

Why an expression has no value. Several errors quote the expression that was
found in place of the expected one; if the digit limit forbids to write it, the
message cannot be made, and the evaluation stops for this reason instead
(`raise`). Running out of the nesting depth is a third way to stop.
-/

namespace LazyLisp

/-- The ways in which an expression fails to have a value. -/
inductive EvalError
  /-- A name that is bound nowhere. -/
  | unknownReference (name : String)
  /-- A call of a function that is not defined. -/
  | unknownFunction (name : String)
  /-- A call with the wrong number of arguments. -/
  | arityMismatch (function : String) (parameters arguments : Nat)
  /-- A condition that is no truth value. -/
  | notBoolean (got : Expr)
  /-- An operand of an arithmetic operator that is no integer. -/
  | notInteger (op : Op) (got : Expr)
  /-- A subtraction or division without any operand. -/
  | missingOperand (op : Op)
  | divisionByZero
  /-- A part taken of something that is no list. -/
  | notList (which : Part) (got : Expr)
  /-- A part taken of the empty list. -/
  | emptyList (which : Part)
  /-- A `let` without a body. -/
  | emptyLet
  /-- A definition in a place where a value is needed. -/
  | definition (name : String)
  /-- The empty expression in a place where a value is needed. -/
  | emptyExpression
  /-- A deferred expression in a place where a value is needed. -/
  | deferredExpression (expr : Expr)
  /-- No scope is left to be removed. -/
  | emptyEnvironment
  deriving Repr

namespace EvalError

/-- The text of the error. -/
def message : EvalError → String
  | unknownReference x => "unknown reference: " ++ x
  | unknownFunction f => "unknown function call: " ++ f
  | arityMismatch f m n =>
    "arity mismatch: " ++ f ++ " takes " ++ naturalText m ++ " argument(s), got " ++ naturalText n
  | notBoolean e => "condition must be boolean, got " ++ e.describe
  | notInteger o e => o.symbol ++ " requires integer operands, got " ++ e.describe
  | missingOperand o => o.symbol ++ " requires at least 1 operand"
  | divisionByZero => "division by zero"
  | notList p e => p.symbol ++ " target must be a list, got " ++ e.describe
  | emptyList p => p.symbol ++ " of empty list"
  | emptyLet => "empty let body"
  | definition f => "cannot evaluate function definition: " ++ f
  | emptyExpression => "cannot evaluate empty expression"
  | deferredExpression e => "cannot evaluate Deferred(" ++ e.describe ++ ")"
  | emptyEnvironment => "cannot pop from an empty environment"

/-- The digit limit lets the message be written. -/
def writable : EvalError → Bool
  | notBoolean e | notInteger _ e | notList _ e | deferredExpression e => e.writable
  | _ => true

end EvalError

/-- The ways in which an evaluation ends without a value. -/
inductive Stop
  /-- The expression has no value. -/
  | error (cause : EvalError)
  /-- The message of the error exceeds the digit limit. -/
  | digits (cause : DigitLimitError)
  /-- The nesting exceeds the depth budget. -/
  | tooDeep
  deriving Repr

/-- Stops with an error, or for want of its message. -/
def raise (e : EvalError) : Stop :=
  if e.writable then .error e else .digits .writing

end LazyLisp
