import LazyLisp.Expr
import LazyLisp.Numeral
import LazyLisp.Token.Declared
import LazyLisp.Token.Group

/-!
# Reading expressions

Expressions are read from the front of a list of tokens by recursive descent.
The first token decides (`Head.of`): a group must hold one expression and
nothing else, most forms take all the tokens that are left, and no tokens at
all read as the empty expression.

Every reader here takes the reader for nested expressions as an argument `one`,
and `readExpr` ties the knot: it recurses on a budget for the nesting depth, and
a nested expression is read with one unit less. Running out of it is an error of
its own, `ReadError.tooDeep`, different from any fault of the tokens.

* `readExpr`: one expression, and the tokens after it;
* `readSequence`: expressions until the tokens run out;
* `readProgram`: the same for a whole program, whose declared names are known.
-/

namespace LazyLisp

/-- The ways in which reading fails. -/
inductive ReadError
  /-- The tokens form no expression. -/
  | parse (cause : ParseError)
  /-- A numeral exceeds the digit limit. -/
  | digits (cause : DigitLimitError)
  /-- The nesting exceeds the depth budget. -/
  | tooDeep
  deriving DecidableEq, Repr

/-- How deep readings, and evaluations, may nest where nothing else is asked
    for. The limit belongs to the machine and not to the language, so whatever
    is run takes it as an argument. -/
def nestingLimit : Nat := 500

/-! ### Heads -/

/-- The words that start a form. -/
inductive Keyword
  | apply (op : Op)
  | list
  | part (which : Part)
  | letIn
  | ite
  | defun
  deriving DecidableEq, Repr

/-- The keywords as they are written. -/
def keywords : List (Token × Keyword) :=
  [("=", .apply .equal), ("+", .apply .add), ("*", .apply .multiply), ("-", .apply .subtract),
    ("/", .apply .divide), ("list", .list), ("car", .part .car), ("cdr", .part .cdr),
    ("let", .letIn), ("if", .ite), ("defun", .defun)]

/-- What the first token of an expression announces. -/
inductive Head
  | group
  | quotation
  | form (keyword : Keyword)
  | bool (value : Bool)
  | call
  | numeral
  | name
  | unknown
  deriving DecidableEq, Repr

/-- Classifies the first token of an expression. The names of functions come
    before numerals and other names, but they cannot hide a keyword or a truth
    value. -/
def Head.of (functions : List String) (token : Token) : Head :=
  if token = "(" then .group
  else if token = "\"" then .quotation
  else
    match keywords.lookup token with
    | some keyword => .form keyword
    | none =>
      if token = "true" then .bool true
      else if token = "false" then .bool false
      else if token ∈ functions then .call
      else if isNumeral token then .numeral
      else if isIdentifier token then .name
      else .unknown

/-! ### Repetition -/

/-- Reads items with `one` until the tokens run out, `fuel` items at most. -/
def readItems {α : Type} (one : List Token → Except ReadError (α × List Token)) :
    Nat → List Token → Except ReadError (List α)
  | _, [] => .ok []
  | 0, _ :: _ => .error .tooDeep
  | fuel + 1, t :: ts => do
    let (item, remaining) ← one (t :: ts)
    let items ← readItems one fuel remaining
    return item :: items

/-- Reads items with `one` until the tokens run out. As every item takes a
    token at least, there are no more items than tokens. -/
def readAll {α : Type} (one : List Token → Except ReadError (α × List Token))
    (tokens : List Token) : Except ReadError (List α) :=
  readItems one tokens.length tokens

/-! ### Forms -/

section Forms

variable (one : List Token → Except ReadError (Expr × List Token))

/-- Reads one expression that takes all of the tokens. -/
def readWhole (tokens : List Token) : Except ReadError Expr := do
  let (e, leftover) ← one tokens
  match leftover with
  | [] => return e
  | t :: ts => .error (.parse (.disjointed (t :: ts)))

/-- Reads what stands inside the group of a binding: a name and an expression. -/
def readBinding : List Token → Except ReadError (String × Expr)
  | [] => .error (.parse (.invalidVariable none))
  | name :: tokens =>
    if isIdentifier name then
      match tokens with
      | [] => .error (.parse (.incompleteBinding name))
      | t :: ts => do return (name, ← readWhole one (t :: ts))
    else .error (.parse (.invalidVariable (some name)))

/-- Reads one binding, a group, and the tokens after it. -/
def readBindingGroup (tokens : List Token) : Except ReadError ((String × Expr) × List Token) :=
  if tokens.head? = some "(" then do
    let (group, remaining) ← (matchParen tokens).mapError .parse
    return (← readBinding one group, remaining)
  else .error (.parse (.invalidBinding tokens.head?))

/-- Reads the rest of a `let`: the group of its bindings, then its body. -/
def readLet (tokens : List Token) : Except ReadError Expr :=
  if tokens.head? = some "(" then do
    let (group, bodyTokens) ← (matchParen tokens).mapError .parse
    let bindings ← readAll (readBindingGroup one) group
    return .letIn bindings (← readAll one bodyTokens)
  else .error (.parse (.invalidBinding tokens.head?))

/-- Reads the rest of an `if`: exactly three expressions. -/
def readIf (tokens : List Token) : Except ReadError Expr := do
  match ← readAll one tokens with
  | [c, t, e] => return .ite c t e
  | es => .error (.parse (.branchCount es.length))

/-- Reads the rest of a `defun`: a name, the group of the parameters, and a body
    that is not empty. -/
def readDefun : List Token → Except ReadError Expr
  | [] => .error (.parse (.invalidFunctionName none))
  | name :: tokens =>
    if isIdentifier name then
      if tokens.head? = some "(" then do
        let (parameters, bodyTokens) ← (matchParen tokens).mapError .parse
        match parameters.find? fun p => !isIdentifier p with
        | some p => .error (.parse (.invalidParameter p))
        | none =>
          match bodyTokens with
          | [] => .error (.parse (.emptyFunction name))
          | t :: ts => return .defun name parameters (← readAll one (t :: ts))
      else .error (.parse (.invalidParameterList name))
    else .error (.parse (.invalidFunctionName (some name)))

/-- Reads the rest of a form after its keyword. Only the parts of a list leave
    tokens over: they take a single expression. -/
def readForm (keyword : Keyword) (tokens : List Token) : Except ReadError (Expr × List Token) :=
  match keyword with
  | .apply op => do return (.apply op (← readAll one tokens), [])
  | .list => do return (.list (← readAll one tokens), [])
  | .part which => do
    let (target, remaining) ← one tokens
    return (.part which target, remaining)
  | .letIn => do return (← readLet one tokens, [])
  | .ite => do return (← readIf one tokens, [])
  | .defun => do return (← readDefun one tokens, [])

end Forms

/-! ### Expressions -/

/-- Reads one expression from the front of the tokens, given the names of the
    functions and the depth budget, and returns the tokens after it. -/
def readExpr (functions : List String) :
    Nat → List Token → Except ReadError (Expr × List Token)
  | 0, _ => .error .tooDeep
  | _ + 1, [] => .ok (.empty, [])
  | depth + 1, head :: rest =>
    match Head.of functions head with
    | .group => do
      let (group, remaining) ← (matchParen (head :: rest)).mapError .parse
      return (← readWhole (readExpr functions depth) group, remaining)
    | .quotation => do
      let (text, remaining) ← (matchQuote (head :: rest)).mapError .parse
      return (.str text, remaining)
    | .form keyword => readForm (readExpr functions depth) keyword rest
    | .bool b => .ok (.bool b, rest)
    | .call => do return (.call head (← readAll (readExpr functions depth) rest), [])
    | .numeral => do
      let n ← (readNumeral head).mapError .digits
      return (.int n, rest)
    | .name => .ok (.var head, rest)
    | .unknown => .error (.parse (.unrecognized head))

/-- Reads expressions until the tokens run out. -/
def readSequence (functions : List String) (depth : Nat) (tokens : List Token) :
    Except ReadError (List Expr) :=
  readAll (readExpr functions depth) tokens

/-- Reads the tokens of a program, whose functions are the names it declares. -/
def readProgram (depth : Nat) (tokens : List Token) : Except ReadError (List Expr) :=
  readSequence (declaredNames tokens) depth tokens

/-- Reads a source text. -/
def readSource (source : String) (depth : Nat := nestingLimit) : Except ReadError (List Expr) :=
  readProgram depth (tokenize source)

end LazyLisp
