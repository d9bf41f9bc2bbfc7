import LazyLisp.Numeral

/-!
# Parse errors

Why a list of tokens cannot be read. Each error has a reason and, but for
unmatched delimiters, the token it is about; the message puts the two together.
-/

namespace LazyLisp

/-- The ways in which tokens fail to form an expression. -/
inductive ParseError
  /-- A group was expected, and something else (or nothing) found. -/
  | expectedParen (found : Option Token)
  /-- A `(` without its `)`. -/
  | unmatchedParen
  /-- A `"` without another one after it. -/
  | unmatchedQuote
  /-- Tokens are left over after the one expression of a group. -/
  | disjointed (leftover : List Token)
  /-- A token that starts no expression. -/
  | unrecognized (token : Token)
  /-- A binding, or the list of them, that is not a group. -/
  | invalidBinding (found : Option Token)
  /-- A binding that does not start with an identifier. -/
  | invalidVariable (found : Option Token)
  /-- A binding without an expression. -/
  | incompleteBinding (name : String)
  /-- An `if` without exactly three expressions. -/
  | branchCount (count : Nat)
  /-- A definition that does not start with an identifier. -/
  | invalidFunctionName (found : Option Token)
  /-- A definition whose parameters are not a group. -/
  | invalidParameterList (function : String)
  /-- A parameter that is not an identifier. -/
  | invalidParameter (token : Token)
  /-- A definition without a body. -/
  | emptyFunction (function : String)
  deriving DecidableEq, Repr

namespace ParseError

/-- What is wrong. -/
def reason : ParseError → String
  | expectedParen _ => "expected '('"
  | unmatchedParen => "parenthesis mismatch"
  | unmatchedQuote => "quote mismatch"
  | disjointed _ => "disjointed expression"
  | unrecognized _ => "unrecognized input"
  | invalidBinding _ => "invalid binding"
  | invalidVariable _ => "invalid variable name"
  | incompleteBinding _ => "incomplete binding"
  | branchCount _ => "invalid if"
  | invalidFunctionName _ => "invalid function name"
  | invalidParameterList _ => "invalid parameter list"
  | invalidParameter _ => "invalid parameter name"
  | emptyFunction _ => "empty function"

/-- The offending token. Where there is none to name, the form that misses it
    takes its place. -/
def token : ParseError → Option String
  | expectedParen found => found
  | unmatchedParen | unmatchedQuote => none
  | disjointed leftover => some (joinTokens leftover)
  | unrecognized t => some t
  | invalidBinding found => some (found.getD "let")
  | invalidVariable found => some (found.getD "()")
  | incompleteBinding x => some x
  | branchCount n => some ("expected 3 expressions, got " ++ naturalText n)
  | invalidFunctionName found => some (found.getD "defun")
  | invalidParameterList f => some f
  | invalidParameter t => some t
  | emptyFunction f => some f

/-- The text of the error. -/
def message (e : ParseError) : String :=
  match e.token with
  | some t => e.reason ++ ": " ++ t
  | none => e.reason

end ParseError

end LazyLisp
