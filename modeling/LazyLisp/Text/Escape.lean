/-!
# Escapes

A few characters that are awkward to write on a command line have an escape of
two characters: a backslash and a letter. `decodeEscapes` expands them; a
backslash before any other character, or at the end, stands for itself.
-/

namespace LazyLisp

/-- What a backslash followed by the character stands for. -/
def escapeMeaning : Char → Option Char
  | 't' => some '\t'
  | 'n' => some '\n'
  | 'r' => some '\r'
  | 's' => some ' '
  | '\\' => some '\\'
  | _ => none

/-- Expands the escapes in a list of characters, from left to right. -/
def decodeEscapeChars : List Char → List Char
  | [] => []
  | [c] => [c]
  | c :: d :: cs =>
    if c = '\\' then
      match escapeMeaning d with
      | some e => e :: decodeEscapeChars cs
      | none => c :: decodeEscapeChars (d :: cs)
    else c :: decodeEscapeChars (d :: cs)

/-- Expands the escapes in a text. -/
def decodeEscapes (text : String) : String :=
  String.ofList (decodeEscapeChars text.toList)

end LazyLisp
