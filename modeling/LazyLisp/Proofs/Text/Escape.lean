import LazyLisp.Proofs.Text.Trailing
import LazyLisp.Text.Escape

/-!
# Escapes in parts of a text

A text whose backslashes are all doubled stands for the text with the single ones
(`decodeEscapeChars_doubled`), so every text can be written with escapes.

What a letter of a text stands for depends on the number of the backslashes before it: of an
even number each second one is escaped by the one before it, and a letter behind them is not
part of an escape. So the escapes of a text are those of its two parts unless the first part
ends with a backslash that is not escaped, and the second one starts with what it escapes
(`decodeEscapeChars_append`).
-/

namespace LazyLisp

section Chars

variable {c : Char} {cs ds : List Char}

theorem escapeMeaning_eq_none_iff :
    escapeMeaning c = none ↔ c ∉ ['t', 'n', 'r', 's', '\\'] := by
  rw [escapeMeaning.eq_def]
  split <;> simp_all

theorem decodeEscapeChars_cons (h : c ≠ '\\' ∨ ∀ d ∈ cs.head?, escapeMeaning d = none) :
    decodeEscapeChars (c :: cs) = c :: decodeEscapeChars cs := by
  cases cs with
  | nil => rfl
  | cons d cs =>
    rw [decodeEscapeChars]
    split
    · next hc =>
      have hd : escapeMeaning d = none := h.resolve_left (not_not.2 hc) d rfl
      simp only [hd]
    · rfl

theorem decodeEscapeChars_escape {d e : Char} (h : escapeMeaning d = some e) :
    decodeEscapeChars ('\\' :: d :: cs) = e :: decodeEscapeChars cs := by
  simp only [decodeEscapeChars, if_pos, h]

theorem decodeEscapeChars_append
    (h : Even (trailing '\\' cs) ∨ ∀ d ∈ ds.head?, escapeMeaning d = none) :
    decodeEscapeChars (cs ++ ds) = decodeEscapeChars cs ++ decodeEscapeChars ds := by
  fun_induction decodeEscapeChars cs with
  | case1 => rfl
  | case2 c =>
    refine decodeEscapeChars_cons (h.imp_left ?_)
    rintro heven rfl
    rw [trailing_singleton] at heven
    exact absurd heven (by decide)
  | case3 d cs e he ih =>
    rw [even_trailing_cons_cons] at h
    rw [List.cons_append, List.cons_append, decodeEscapeChars_escape he, ih h, List.cons_append]
  | case4 d cs hd ih =>
    -- A backslash that escapes nothing is not followed by another one.
    have hne : d ≠ '\\' := by
      rintro rfl
      simp [escapeMeaning] at hd
    rw [trailing_cons_cons_of_ne hne] at h
    rw [List.cons_append, List.cons_append, decodeEscapeChars_cons (.inr (by simpa using hd)),
      ← List.cons_append, ih h, List.cons_append]
  | case5 c d cs hc ih =>
    rw [trailing_cons_of_ne hc] at h
    rw [List.cons_append, decodeEscapeChars_cons (.inl hc), ih h, List.cons_append]

/-- A character as it is written where backslashes are doubled. -/
def doubled (c : Char) : List Char := if c = '\\' then ['\\', '\\'] else [c]

theorem decodeEscapeChars_doubled (cs : List Char) :
    decodeEscapeChars (cs.flatMap doubled) = cs := by
  induction cs with
  | nil => rfl
  | cons c cs ih =>
    rw [List.flatMap_cons, doubled]
    split
    · next hc =>
      rw [List.cons_append, List.singleton_append, decodeEscapeChars_escape rfl, ih, hc]
    · next hc =>
      rw [List.singleton_append, decodeEscapeChars_cons (.inl hc), ih]

end Chars

/-- The text with every backslash doubled. -/
def doubleBackslashes (text : String) : String :=
  String.ofList (text.toList.flatMap doubled)

/-- A text with doubled backslashes is decoded to the text itself. Two texts are decoded one
    by one if the first ends with an even number of backslashes, or if the second does not
    start with a character that a backslash could escape. -/
theorem decodeEscapes_composes :
    (∀ text, decodeEscapes (doubleBackslashes text) = text) ∧
      ∀ a b : String, Even (trailing '\\' a.toList) ∨
          (∀ c ∈ b.toList.head?, c ∉ ['t', 'n', 'r', 's', '\\']) →
        decodeEscapes (a ++ b) = decodeEscapes a ++ decodeEscapes b := by
  constructor
  · intro text
    rw [decodeEscapes, doubleBackslashes, String.toList_ofList, decodeEscapeChars_doubled,
      String.ofList_toList]
  · intro a b h
    simp only [← escapeMeaning_eq_none_iff] at h
    rw [decodeEscapes, decodeEscapes, decodeEscapes, String.toList_append,
      decodeEscapeChars_append h, String.ofList_append]

/-- A letter behind a backslash that is escaped, and one that no backslash escapes. -/
theorem decodeEscapes_composes_atBackslash :
    Even (trailing '\\' "a\\\\".toList) ∧
      decodeEscapes ("a\\\\" ++ "t") = decodeEscapes "a\\\\" ++ decodeEscapes "t" ∧
      (∀ c ∈ "x\\n".toList.head?, c ∉ ['t', 'n', 'r', 's', '\\']) ∧
      decodeEscapes ("\\" ++ "x\\n") = decodeEscapes "\\" ++ decodeEscapes "x\\n" := by
  have heven : Even (trailing '\\' "a\\\\".toList) := by decide
  have hfirst : ∀ c ∈ "x\\n".toList.head?, c ∉ ['t', 'n', 'r', 's', '\\'] := by simp
  exact ⟨heven, decodeEscapes_composes.2 _ _ (.inl heven), hfirst,
    decodeEscapes_composes.2 _ _ (.inr hfirst)⟩

/-- Parting an escape makes a difference. -/
example : decodeEscapes ("\\" ++ "t") = "\t" ∧ decodeEscapes "\\" ++ decodeEscapes "t" = "\\t" := by
  decide

end LazyLisp
