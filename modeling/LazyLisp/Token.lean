/-!
# Tokens

A source text is a sequence of *tokens*: the delimiters `(`, `)` and `"`, each
a token by itself, and *atoms*, the maximal runs of any other characters.
Blanks (space, tab, newline, carriage return) separate tokens and are dropped;
every other character, other spaces included, belongs to an atom. Every text
has tokens: nothing is an error here.

* `tokenize`: the tokens of a text, in order;
* `joinTokens`: tokens written on one line;
* `isIdentifier`: the atoms that may name a variable or a function.
-/

namespace LazyLisp

/-- A token, kept as it is written. -/
abbrev Token := String

/-- The characters that separate tokens. -/
def isBlank (c : Char) : Bool :=
  c == ' ' || c == '\t' || c == '\n' || c == '\r'

/-- The characters that are tokens by themselves. -/
def isDelimiter (c : Char) : Bool :=
  c == '(' || c == ')' || c == '"'

/-- The characters that atoms are made of. -/
def isAtomChar (c : Char) : Bool :=
  !isBlank c && !isDelimiter c

/-- The next character, if any, belongs to an atom. -/
def startsAtom : List Char → Bool
  | [] => false
  | c :: _ => isAtomChar c

/-- Adds a character to the front of the first word, or as a word of its own
    if there is none. -/
def extendFirst (c : Char) : List (List Char) → List (List Char)
  | [] => [[c]]
  | word :: words => (c :: word) :: words

/-- The tokens of a text, as lists of characters. A character of an atom joins
    the token after it exactly if that token starts right there. -/
def lexemes : List Char → List (List Char)
  | [] => []
  | c :: cs =>
    if isBlank c then lexemes cs
    else if isDelimiter c then [c] :: lexemes cs
    else if startsAtom cs then extendFirst c (lexemes cs)
    else [c] :: lexemes cs

/-- The tokens of a source text, in order. -/
def tokenize (source : String) : List Token :=
  (lexemes source.toList).map String.ofList

/-- Tokens on one line, a space between each two. -/
def joinTokens (tokens : List Token) : String :=
  " ".intercalate tokens

/-- The characters of identifiers: the letters `a` to `z` in both cases, the
    underscore and the hyphen. -/
def isNameChar (c : Char) : Bool :=
  c.isAlpha || c == '_' || c == '-'

/-- A token that may name a variable or a function. -/
def isIdentifier (token : Token) : Bool :=
  !token.toList.isEmpty && token.toList.all isNameChar

end LazyLisp
