import LazyLisp.Proofs.Reading.Lexing

/-!
# Layouts

A *layout* is a way to write tokens: with any blanks before, between and after them, and
with at least one between two atoms, which would be one atom otherwise. It says what a
text consists of, and says it without a scan of the text.

Every text has a layout (`Layout.exists_text`), and whatever layout a text has, the
tokens are those that are found by scanning it (`Layout.tokenize_text`). So these are the
only tokens that the text can be cut into (`tokenize_exact`). All other characters than
blanks are kept, in their order (`flatten_lexemes`).
-/

namespace LazyLisp

/-- An atom or a delimiter. -/
def isToken (t : Token) : Bool :=
  isAtom t || t == "(" || t == ")" || t == "\""

/-- Blanks, any number of them. -/
def isGap (gap : String) : Bool := gap.toList.all isBlank

/-- The text that starts with `gap` and goes on with the words, each of them a token with
    the gap after it. -/
def spacedText (gap : String) : List (Token × String) → String
  | [] => gap
  | (t, next) :: words => gap ++ (t ++ spacedText next words)

/-- Tokens with the blanks around them. -/
structure Layout where
  /-- The blanks before the first token. -/
  lead : String
  /-- The tokens, each with the blanks after it. -/
  words : List (Token × String)
  isGap_lead : isGap lead = true
  isGap_after : ∀ w ∈ words, isGap w.2 = true
  isToken_word : ∀ w ∈ words, isToken w.1 = true
  /-- There are blanks between two atoms. -/
  apart : words.IsChain fun v w => isAtom v.1 = true → isAtom w.1 = true → v.2 ≠ ""

namespace Layout

/-- The text that is laid out. -/
def text (a : Layout) : String := spacedText a.lead a.words

/-- The tokens of a layout. -/
def tokens (a : Layout) : List Token := a.words.map Prod.fst

end Layout

/-! ## Scanning a layout -/

section Scanning

variable {c : Char} {t r gap : String} {words : List (Token × String)}

theorem isBlank_of_isDelimiter (h : isDelimiter c = true) : isBlank c = false := by
  simp only [isDelimiter, Bool.or_eq_true, beq_iff_eq] at h
  rcases h with (rfl | rfl) | rfl <;> rfl

theorem isToken_iff :
    isToken t = true ↔ isAtom t = true ∨ ∃ c, isDelimiter c = true ∧ t = String.singleton c := by
  simp only [isToken, isDelimiter, Bool.or_eq_true, beq_iff_eq, or_assoc]
  refine or_congr_right ⟨?_, ?_⟩
  · rintro (rfl | rfl | rfl)
    · exact ⟨'(', by decide, rfl⟩
    · exact ⟨')', by decide, rfl⟩
    · exact ⟨'"', by decide, rfl⟩
  · rintro ⟨c, rfl | rfl | rfl, rfl⟩ <;> decide

theorem tokenize_gap_append (h : isGap gap = true) : tokenize (gap ++ r) = tokenize r := by
  rw [isGap] at h
  rw [tokenize, tokenize, String.toList_append]
  generalize gap.toList = cs at h
  induction cs with
  | nil => rfl
  | cons c cs ih =>
    rw [List.all_cons, Bool.and_eq_true] at h
    rw [List.cons_append, lexemes_cons_of_isBlank h.1, ih h.2]

/-- A token is cut off where it ends, unless it is an atom that goes on. -/
theorem tokenize_token_append (ht : isToken t = true)
    (h : isAtom t = true → startsAtom r.toList = false) :
    tokenize (t ++ r) = t :: tokenize r := by
  rcases isToken_iff.1 ht with hatom | ⟨c, hc, rfl⟩
  · rw [tokenize_append (h hatom), tokenize_of_isAtom hatom]
    rfl
  · simp [tokenize, lexemes_cons_of_isDelimiter (isBlank_of_isDelimiter hc) hc]

theorem tokenize_of_isToken (ht : isToken t = true) : tokenize t = [t] := by
  have hcut : tokenize (t ++ "") = [t] := tokenize_token_append ht fun _ => rfl
  rwa [String.append_empty] at hcut

theorem startsAtom_gap_append (hgap : isGap gap = true)
    (h : gap = "" → startsAtom r.toList = false) : startsAtom (gap ++ r).toList = false := by
  rw [String.toList_append]
  rcases hcs : gap.toList with _ | ⟨c, cs⟩
  · exact h (String.toList_eq_nil_iff.1 hcs)
  · rw [isGap, hcs, List.all_cons, Bool.and_eq_true] at hgap
    simp [startsAtom, isAtomChar, hgap.1]

/-- A text whose first token is no atom, or comes after a blank, does not start with an
    atom. -/
theorem startsAtom_spacedText (hgap : isGap gap = true) (hwords : ∀ w ∈ words, isToken w.1 = true)
    (h : ∀ w ∈ words.head?, isAtom w.1 = true → gap ≠ "") :
    startsAtom (spacedText gap words).toList = false := by
  cases words with
  | nil =>
    rw [spacedText, ← String.append_empty (s := gap)]
    exact startsAtom_gap_append hgap fun _ => rfl
  | cons w words =>
    refine startsAtom_gap_append hgap fun hempty => ?_
    rcases isToken_iff.1 (hwords w List.mem_cons_self) with hatom | ⟨c, hc, hw⟩
    · exact absurd hempty (h w rfl hatom)
    · simp [hw, startsAtom, isAtomChar, hc]

/-- The tokens of a layout are those of its text. -/
theorem Layout.tokenize_text (a : Layout) : tokenize a.text = a.tokens := by
  obtain ⟨lead, words, hlead, hafter, hwords, hapart⟩ := a
  simp only [Layout.text, Layout.tokens]
  -- What follows a token is a layout of the other tokens, with the gap in front.
  induction words generalizing lead with
  | nil =>
    rw [spacedText, ← String.append_empty (s := lead), tokenize_gap_append hlead]
    rfl
  | cons w words ih =>
    rw [List.forall_mem_cons] at hafter hwords
    rw [List.isChain_cons] at hapart
    have hnext (hatom : isAtom w.1 = true) : startsAtom (spacedText w.2 words).toList = false :=
      startsAtom_spacedText hafter.1 hwords.2 fun v hv => hapart.1 v hv hatom
    rw [spacedText, tokenize_gap_append hlead, tokenize_token_append hwords.1 hnext,
      ih w.2 hafter.1 hafter.2 hwords.2 hapart.2, List.map_cons]

end Scanning

/-! ## The layout of a text -/

namespace Layout

/-- No token, and no blank. -/
def empty : Layout where
  lead := ""
  words := []
  isGap_lead := rfl
  isGap_after := List.forall_mem_nil _
  isToken_word := List.forall_mem_nil _
  apart := .nil

/-- A blank more before the first token. -/
def indent (a : Layout) (c : Char) (hc : isBlank c = true) : Layout where
  lead := String.singleton c ++ a.lead
  words := a.words
  isGap_lead := by
    have hlead := a.isGap_lead
    rw [isGap] at hlead
    simp [isGap, hc, hlead, -List.all_eq_true]
  isGap_after := a.isGap_after
  isToken_word := a.isToken_word
  apart := a.apart

/-- A token more before all others. -/
def cons (a : Layout) (t : Token) (ht : isToken t = true)
    (h : ∀ w ∈ a.words.head?, isAtom t = true → isAtom w.1 = true → a.lead ≠ "") : Layout where
  lead := ""
  words := (t, a.lead) :: a.words
  isGap_lead := rfl
  isGap_after := List.forall_mem_cons.2 ⟨a.isGap_lead, a.isGap_after⟩
  isToken_word := List.forall_mem_cons.2 ⟨ht, a.isToken_word⟩
  apart := List.isChain_cons.2 ⟨h, a.apart⟩

variable {c : Char} {a : Layout}

theorem text_indent (hc : isBlank c = true) :
    (a.indent c hc).text = String.singleton c ++ a.text := by
  simp only [text, indent]
  cases a.words with
  | nil => rfl
  | cons w words => simp only [spacedText, String.append_assoc]

theorem text_cons {t : Token} (ht : isToken t = true)
    (h : ∀ w ∈ a.words.head?, isAtom t = true → isAtom w.1 = true → a.lead ≠ "") :
    (a.cons t ht h).text = t ++ a.text := by
  simp only [text, cons, spacedText, String.empty_append]

/-- A character of an atom is added to the atom that a layout starts with, or is an atom of
    its own if it does not start with one. -/
theorem exists_text_of_isAtomChar (a : Layout) (hc : isAtomChar c = true) :
    ∃ b : Layout, b.text = String.singleton c ++ a.text := by
  have hatom {t : String} (ht : t.toList.all isAtomChar = true) :
      isAtom (String.singleton c ++ t) = true := by
    simp [isAtom, hc, ht, -List.all_eq_true]
  by_cases hstarts : ∃ w ∈ a.words.head?, isAtom w.1 = true ∧ a.lead = ""
  · obtain ⟨w, hw, hatomw, hlead⟩ := hstarts
    obtain ⟨words, hwords⟩ := List.head?_eq_some_iff.1 hw
    have hafter := a.isGap_after
    have htokens := a.isToken_word
    have hapart := a.apart
    rw [hwords, List.forall_mem_cons] at hafter htokens
    rw [hwords, List.isChain_cons] at hapart
    have hgrown := hatom (Bool.and_eq_true_iff.1 hatomw).2
    refine ⟨⟨"", (String.singleton c ++ w.1, w.2) :: words, rfl, ?_, ?_, ?_⟩, ?_⟩
    · exact List.forall_mem_cons.2 hafter
    · exact List.forall_mem_cons.2 ⟨isToken_iff.2 (.inl hgrown), htokens.2⟩
    · exact List.isChain_cons.2 ⟨fun v hv _ => hapart.1 v hv hatomw, hapart.2⟩
    · simp only [text, hlead, hwords, spacedText, String.empty_append, String.append_assoc]
  · have hone : isAtom (String.singleton c) = true := by simpa using hatom (t := "") rfl
    refine ⟨a.cons _ (isToken_iff.2 (.inl hone)) ?_, text_cons _ _⟩
    exact fun w hw _ hatomw hlead => hstarts ⟨w, hw, hatomw, hlead⟩

/-- Every text has a layout. -/
theorem exists_text (s : String) : ∃ a : Layout, a.text = s := by
  rw [← String.ofList_toList (s := s)]
  induction s.toList with
  | nil => exact ⟨empty, rfl⟩
  | cons c cs ih =>
    obtain ⟨a, ha⟩ := ih
    rw [String.ofList_cons, ← ha]
    by_cases hblank : isBlank c = true
    · exact ⟨a.indent c hblank, text_indent hblank⟩
    by_cases hdelimiter : isDelimiter c = true
    · have hatom : isAtom (String.singleton c) = false := by
        simp [isAtom, isAtomChar, hdelimiter]
      refine ⟨a.cons _ (isToken_iff.2 (.inr ⟨c, hdelimiter, rfl⟩)) ?_, text_cons _ _⟩
      intro w _ h
      rw [hatom] at h
      cases h
    · exact a.exists_text_of_isAtomChar (by simp [isAtomChar, hblank, hdelimiter])

end Layout

/-! ## Tokens of a text -/

theorem flatten_extendFirst (c : Char) (words : List (List Char)) :
    (extendFirst c words).flatten = c :: words.flatten := by
  cases words <;> rfl

theorem flatten_lexemes (cs : List Char) : (lexemes cs).flatten = cs.filter (!isBlank ·) := by
  fun_induction lexemes cs with
  | case1 => rfl
  | case2 c cs hblank ih => simp [hblank, ih]
  | case3 c cs hblank hdelimiter ih => simp [hblank, ih]
  | case4 c cs hblank hdelimiter hatom ih => simp [flatten_extendFirst, hblank, ih]
  | case5 c cs hblank hdelimiter hatom ih => simp [hblank, ih]

/-- The tokens of a text have all its characters but the blanks, in their order. -/
theorem flatMap_toList_tokenize (s : String) :
    (tokenize s).flatMap String.toList = s.toList.filter (!isBlank ·) := by
  rw [tokenize, List.flatMap_map, ← flatten_lexemes]
  simp [List.flatMap_def]

/-- The tokens of a text are the only ones that it can be cut into, with blanks around them.
    They have all its characters but the blanks, in their order; and tokens written on one
    line are read back as they are. -/
theorem tokenize_exact :
    (∀ (s : String) (tokens : List Token),
      tokens = tokenize s ↔ ∃ a : Layout, a.text = s ∧ a.tokens = tokens) ∧
      (∀ s : String, (tokenize s).flatMap String.toList = s.toList.filter (!isBlank ·)) ∧
      ∀ tokens : List Token, (∀ t ∈ tokens, isToken t = true) →
        tokenize (joinTokens tokens) = tokens := by
  refine ⟨fun s tokens => ⟨?_, ?_⟩, flatMap_toList_tokenize, fun tokens htokens => ?_⟩
  · rintro rfl
    obtain ⟨a, rfl⟩ := Layout.exists_text s
    exact ⟨a, rfl, a.tokenize_text.symm⟩
  · rintro ⟨a, rfl, rfl⟩
    exact a.tokenize_text.symm
  · exact tokenize_joinTokens fun t ht => tokenize_of_isToken (htokens t ht)

/-- Delimiters next to atoms and to each other, and a space that separates nothing. -/
theorem tokenize_exact_glued :
    let tokens : List Token := ["(", "a\u00a0b", "\"", "c", "\"", ")", ")"]
    (∀ t ∈ tokens, isToken t = true) ∧ tokenize (joinTokens tokens) = tokens ∧
      (∃ a : Layout, a.text = "(a\u00a0b\"c\"\t)) " ∧ a.tokens = tokens) := by
  intro tokens
  obtain ⟨hlayout, -, hjoin⟩ := tokenize_exact
  have htokens : ∀ t ∈ tokens, isToken t = true := by decide
  have hglued : tokens = tokenize "(a\u00a0b\"c\"\t)) " := by decide
  exact ⟨htokens, hjoin tokens htokens, (hlayout _ tokens).1 hglued⟩

end LazyLisp
