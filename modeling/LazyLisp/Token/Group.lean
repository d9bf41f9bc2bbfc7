import LazyLisp.ParseError

/-!
# Groups and quotations

A *group* is what stands between a `(` and its matching `)`; a *quotation*,
what stands between a `"` and the next `"`. A quotation mark means nothing to
the matching of parentheses, and the reverse.

* `matchParen`: the group at the front of a list of tokens, and the tokens
  after it;
* `matchQuote`: the same for a quotation, whose tokens are joined to a text.
-/

namespace LazyLisp

/-- The tokens up to the `)` that closes the `depth` groups opened inside and
    the one around them, and the tokens after it. -/
def splitGroup : Nat → List Token → Option (List Token × List Token)
  | _, [] => none
  | depth, t :: ts =>
    if t = "(" then
      (splitGroup (depth + 1) ts).map fun (group, rest) => (t :: group, rest)
    else if t = ")" then
      match depth with
      | 0 => some ([], ts)
      | depth + 1 => (splitGroup depth ts).map fun (group, rest) => (t :: group, rest)
    else
      (splitGroup depth ts).map fun (group, rest) => (t :: group, rest)

/-- The group at the front of the tokens, without its parentheses, and the
    tokens after it. -/
def matchParen : List Token → Except ParseError (List Token × List Token)
  | [] => .error (.expectedParen none)
  | t :: ts =>
    if t = "(" then
      match splitGroup 0 ts with
      | some split => .ok split
      | none => .error .unmatchedParen
    else .error (.expectedParen (some t))

/-- The tokens up to the next quotation mark, and those after it. -/
def splitQuote : List Token → Option (List Token × List Token)
  | [] => none
  | t :: ts =>
    if t = "\"" then some ([], ts)
    else (splitQuote ts).map fun (words, rest) => (t :: words, rest)

/-- The text of the quotation at the front of the tokens, and the tokens after
    it. The first token is taken for the opening mark. -/
def matchQuote (tokens : List Token) : Except ParseError (String × List Token) :=
  match splitQuote tokens.tail with
  | some (words, rest) => .ok (joinTokens words, rest)
  | none => .error .unmatchedQuote

end LazyLisp
