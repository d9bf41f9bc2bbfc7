import LazyLisp.Expr.Source
import LazyLisp.Token
import Mathlib

/-!
# Tokens of composed texts

A text put together from parts has the tokens of its parts, as long as no part
that ends in an atom is followed by one that starts with an atom. Blanks and
parentheses keep parts apart, so the tokens of a form are the tokens of its
words between two parentheses (`tokenize_formText`).

* `isAtom`: the tokens that are no delimiters;
* `tokenize_of_isAtom`: an atom is a text of one token;
* `isAtom_or_delimiter`: every token is an atom or a delimiter.
-/

namespace LazyLisp

/-- A token without blanks and delimiters, and not empty. -/
def isAtom (token : Token) : Bool :=
  !token.toList.isEmpty && token.toList.all isAtomChar

/-! ## Texts as lists of characters -/

section Lexemes

variable {c : Char} {cs ds : List Char}

theorem lexemes_cons_of_isBlank (h : isBlank c = true) : lexemes (c :: cs) = lexemes cs := by
  rw [lexemes, if_pos h]

theorem lexemes_cons_of_isDelimiter (hblank : isBlank c = false) (h : isDelimiter c = true) :
    lexemes (c :: cs) = [c] :: lexemes cs := by
  simp [lexemes, hblank, h]

/-- An atom takes all the characters that it can. -/
theorem lexemes_cons_of_isAtomChar (h : isAtomChar c = true) :
    lexemes (c :: cs) = (c :: cs.takeWhile isAtomChar) :: lexemes (cs.dropWhile isAtomChar) := by
  induction cs generalizing c with
  | nil =>
    simp only [isAtomChar, Bool.and_eq_true, Bool.not_eq_true'] at h
    simp [lexemes, startsAtom, h]
  | cons d ds ih =>
    have hc := h
    simp only [isAtomChar, Bool.and_eq_true, Bool.not_eq_true'] at hc
    by_cases hd : isAtomChar d = true
    · rw [lexemes]
      simp [hc, startsAtom, hd, ih hd, extendFirst]
    · rw [lexemes]
      simp [hc, startsAtom, hd]

theorem lexemes_of_all (hne : cs ≠ []) (h : cs.all isAtomChar = true) : lexemes cs = [cs] := by
  cases cs with
  | nil => exact absurd rfl hne
  | cons c cs =>
    rw [List.all_cons, Bool.and_eq_true] at h
    have hall : ∀ a ∈ cs, isAtomChar a = true := List.all_eq_true.1 h.2
    rw [lexemes_cons_of_isAtomChar h.1, List.takeWhile_eq_self_iff.2 hall,
      List.dropWhile_eq_nil_iff.2 hall, lexemes]

theorem startsAtom_append (h : startsAtom ds = false) :
    startsAtom (cs ++ ds) = startsAtom cs := by
  cases cs with
  | nil => exact h
  | cons c cs => rfl

/-- Where a new token has to start, a text may be cut. -/
theorem lexemes_append (h : startsAtom ds = false) :
    lexemes (cs ++ ds) = lexemes cs ++ lexemes ds := by
  induction cs with
  | nil => rfl
  | cons c cs ih =>
    rw [List.cons_append, lexemes, lexemes, startsAtom_append h, ih]
    split
    · rfl
    split
    · rfl
    split
    · next hcs =>
      -- The atom goes on, so it is the first of the tokens of `cs` that grows.
      cases cs with
      | nil => simp [startsAtom] at hcs
      | cons d cs => rw [lexemes_cons_of_isAtomChar hcs]; rfl
    · rfl

/-- A token is one delimiter, or a run of other characters that are no blanks. -/
theorem mem_lexemes {word : List Char} (h : word ∈ lexemes cs) :
    (∃ c, isDelimiter c = true ∧ word = [c]) ∨ (word ≠ [] ∧ word.all isAtomChar = true) := by
  induction cs with
  | nil => simp [lexemes] at h
  | cons c cs ih =>
    by_cases hblank : isBlank c = true
    · rw [lexemes_cons_of_isBlank hblank] at h
      exact ih h
    rw [Bool.not_eq_true] at hblank
    by_cases hdelimiter : isDelimiter c = true
    · rw [lexemes_cons_of_isDelimiter hblank hdelimiter, List.mem_cons] at h
      rcases h with rfl | h
      · exact .inl ⟨c, hdelimiter, rfl⟩
      · exact ih h
    rw [Bool.not_eq_true] at hdelimiter
    have hc : isAtomChar c = true := by simp [isAtomChar, hblank, hdelimiter]
    rw [lexemes_cons_of_isAtomChar hc, List.mem_cons] at h
    rcases h with rfl | h
    · exact .inr ⟨List.cons_ne_nil _ _, by simp [hc, -List.all_eq_true]⟩
    · -- The tokens after the atom are among those of `cs`.
      refine ih ?_
      cases cs with
      | nil => exact h
      | cons d cs =>
        by_cases hd : isAtomChar d = true
        · rw [List.dropWhile_cons_of_pos hd] at h
          rw [lexemes_cons_of_isAtomChar hd]
          exact List.mem_cons_of_mem _ h
        · rwa [List.dropWhile_cons_of_neg hd] at h

end Lexemes

/-! ## Texts as strings -/

section Tokenize

variable {s t : String}

theorem tokenize_append (h : startsAtom t.toList = false) :
    tokenize (s ++ t) = tokenize s ++ tokenize t := by
  simp [tokenize, lexemes_append h]

theorem tokenize_space_append (t : String) : tokenize (" " ++ t) = tokenize t := by
  simp [tokenize, lexemes_cons_of_isBlank (show isBlank ' ' = true from rfl)]

/-- Words with spaces between them have the tokens of the words. -/
theorem tokenize_intercalate (words : List String) :
    tokenize (" ".intercalate words) = words.flatMap tokenize := by
  induction words with
  | nil => simp [tokenize, lexemes]
  | cons w words ih =>
    cases words with
    | nil => simp
    | cons v words =>
      have hspace : startsAtom (" " ++ " ".intercalate (v :: words)).toList = false := by
        simp [startsAtom, isAtomChar, isBlank]
      rw [String.intercalate_cons_cons, String.append_assoc, tokenize_append hspace,
        tokenize_space_append, ih]
      rfl

/-- A form has the tokens of its words, between two parentheses. -/
theorem tokenize_formText (words : List String) :
    tokenize (formText words) = "(" :: words.flatMap tokenize ++ [")"] := by
  have hclose : startsAtom (")" : String).toList = false := by decide
  have hopen (t : String) : tokenize ("(" ++ t) = "(" :: tokenize t := by
    simp [tokenize, lexemes_cons_of_isDelimiter (show isBlank '(' = false from rfl) rfl]
  rw [formText, tokenize_append hclose, hopen, tokenize_intercalate]
  rfl

theorem tokenize_of_isAtom (h : isAtom t = true) : tokenize t = [t] := by
  rw [isAtom, Bool.and_eq_true, Bool.not_eq_true', List.isEmpty_eq_false_iff] at h
  rw [tokenize, lexemes_of_all h.1 h.2, List.map_singleton, String.ofList_toList]

/-- Every token of a text is an atom or a delimiter. -/
theorem isAtom_or_delimiter (h : t ∈ tokenize s) :
    isAtom t = true ∨ t = "(" ∨ t = ")" ∨ t = "\"" := by
  obtain ⟨word, hword, rfl⟩ := List.mem_map.1 h
  rcases mem_lexemes hword with ⟨c, hc, rfl⟩ | ⟨hne, hall⟩
  · simp only [isDelimiter, Bool.or_eq_true, beq_iff_eq, or_assoc] at hc
    rcases hc with rfl | rfl | rfl
    · exact .inr (.inl rfl)
    · exact .inr (.inr (.inl rfl))
    · exact .inr (.inr (.inr rfl))
  · exact .inl (by simp [isAtom, hne, hall, -List.all_eq_true])

theorem tokenize_joinTokens {words : List Token} (h : ∀ w ∈ words, tokenize w = [w]) :
    tokenize (joinTokens words) = words := by
  rw [joinTokens, tokenize_intercalate]
  induction words with
  | nil => rfl
  | cons w words ih =>
    rw [List.forall_mem_cons] at h
    rw [List.flatMap_cons, h.1, ih h.2]
    rfl

theorem tokenize_form {head : Token} (h : isAtom head = true) (words : List String) :
    tokenize (formText (head :: words)) = "(" :: head :: (words.flatMap tokenize ++ [")"]) := by
  simp [tokenize_formText, tokenize_of_isAtom h]

end Tokenize

/-! ## Names -/

section Names

variable {t : Token}

/-- Blanks and delimiters are neither letters nor digits. -/
theorem isAtomChar_of_isNameChar {c : Char} (h : isNameChar c = true ∨ c.isDigit = true) :
    isAtomChar c = true := by
  rw [← Bool.not_eq_false]
  intro hc
  have hmem : c ∈ [' ', '\t', '\n', '\r', '(', ')', '"'] := by
    simp only [isAtomChar, isBlank, isDelimiter, Bool.and_eq_false_iff, Bool.not_eq_false',
      Bool.or_eq_true, beq_iff_eq, or_assoc] at hc
    simpa using hc
  have hnone : [' ', '\t', '\n', '\r', '(', ')', '"'].all
      (fun c => !isNameChar c && !c.isDigit) = true := by decide
  have hnot := List.all_eq_true.1 hnone c hmem
  rw [Bool.and_eq_true, Bool.not_eq_true', Bool.not_eq_true'] at hnot
  rw [hnot.1, hnot.2] at h
  exact absurd h (by decide)

theorem isAtom_of_isIdentifier (h : isIdentifier t = true) : isAtom t = true := by
  rw [isIdentifier, Bool.and_eq_true, List.all_eq_true] at h
  rw [isAtom, Bool.and_eq_true, List.all_eq_true]
  exact ⟨h.1, fun c hc => isAtomChar_of_isNameChar (.inl (h.2 c hc))⟩

theorem ne_delimiter_of_isAtom (h : isAtom t = true) :
    t ≠ "(" ∧ t ≠ ")" ∧ t ≠ "\"" := by
  refine ⟨?_, ?_, ?_⟩ <;> (rintro rfl; revert h; decide)

theorem ne_delimiter_of_isIdentifier (h : isIdentifier t = true) :
    t ≠ "(" ∧ t ≠ ")" ∧ t ≠ "\"" :=
  ne_delimiter_of_isAtom (isAtom_of_isIdentifier h)

end Names

end LazyLisp
