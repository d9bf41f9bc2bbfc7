/-!
# Sorted texts

Sets of names are shown in increasing order, by code points, each name once.
-/

namespace LazyLisp

/-- Puts a text in its place among texts in increasing order, unless it is
    there already. -/
def insertSorted (text : String) : List String → List String
  | [] => [text]
  | t :: ts =>
    if text < t then text :: t :: ts
    else if text = t then t :: ts
    else t :: insertSorted text ts

/-- The texts in increasing order, each once. -/
def sortedTexts (texts : List String) : List String :=
  texts.foldr insertSorted []

end LazyLisp
