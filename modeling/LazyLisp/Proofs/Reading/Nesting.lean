import LazyLisp.Proofs.Reading.RoundTrip

/-!
# Nesting

Groups as a human reads them, where a parenthesis inside of a quotation is part
of the text and neither opens nor closes anything. Of a list of tokens, there
is at most one way to see it so (`Nested.append_inj`); the reader sees another,
as its matching of parentheses takes no notice of quotation marks. But whatever
it reads is nested in both ways at once, each group with parentheses that match
even if those in its texts count (`Reads.nested`).

So the condition that the texts of a tree are closed is not only sufficient for
its source text to be read, but necessary (`Expr.closed_of_nested`).
-/

namespace LazyLisp

/-- Every quotation ends, and so does every group outside of the quotations,
    with such tokens between its parentheses. -/
inductive Nested (P : List Token → Prop) : List Token → Prop
  | nil : Nested P []
  | word {t : Token} {ts : List Token} : t ≠ "(" ∧ t ≠ ")" ∧ t ≠ "\"" → Nested P ts →
    Nested P (t :: ts)
  | quotation {words rest : List Token} : (∀ w ∈ words, w ≠ "\"") → Nested P rest →
    Nested P ("\"" :: (words ++ "\"" :: rest))
  | group {ts rest : List Token} : P ts → Nested P ts → Nested P rest →
    Nested P ("(" :: (ts ++ ")" :: rest))

namespace Nested

variable {P Q : List Token → Prop} {t : Token} {ts us words : List Token}

/-! ## Ways to nest -/

theorem of_word (ht : t ≠ "(" ∧ t ≠ ")" ∧ t ≠ "\"") (h : Nested P (t :: ts)) : Nested P ts := by
  cases h with
  | word _ h => exact h
  | quotation => exact absurd rfl ht.2.2
  | group => exact absurd rfl ht.1

theorem quotation_inj {words' : List Token} (hwords : ∀ w ∈ words, w ≠ "\"")
    (hwords' : ∀ w ∈ words', w ≠ "\"") (h : words ++ "\"" :: ts = words' ++ "\"" :: us) :
    words = words' ∧ ts = us := by
  have hsplit : splitQuote (words ++ "\"" :: ts) = some (words, ts) := splitQuote_append hwords
  rw [h, splitQuote_append hwords'] at hsplit
  cases hsplit
  exact ⟨rfl, rfl⟩

theorem of_quotation (hwords : ∀ w ∈ words, w ≠ "\"")
    (h : Nested P ("\"" :: (words ++ "\"" :: ts))) : Nested P ts := by
  generalize htokens : "\"" :: (words ++ "\"" :: ts) = tokens at h
  cases h with
  | nil => cases htokens
  | word ht _ => exact absurd (List.head_eq_of_cons_eq htokens).symm ht.2.2
  | quotation hwords' h =>
    obtain ⟨-, rfl⟩ := quotation_inj hwords hwords' (List.tail_eq_of_cons_eq htokens)
    exact h
  | group => exact absurd (List.head_eq_of_cons_eq htokens) (by decide)

/-- The end of a group is the first parenthesis that closes more than what was
    opened inside of it. -/
theorem append_inj {vs ws : List Token} (hts : Nested P ts) (hus : Nested Q us)
    (h : ts ++ ")" :: vs = us ++ ")" :: ws) : ts = us ∧ vs = ws := by
  induction hts generalizing us vs ws with
  | nil =>
    cases hus with
    | nil => exact ⟨rfl, List.tail_eq_of_cons_eq h⟩
    | word ht _ => exact absurd (List.head_eq_of_cons_eq h).symm ht.2.1
    | quotation | group => exact absurd (List.head_eq_of_cons_eq h) (by decide)
  | word ht _ ih =>
    cases hus with
    | nil => exact absurd (List.head_eq_of_cons_eq h) ht.2.1
    | word _ hus =>
      obtain ⟨rfl, rfl⟩ := ih hus (List.tail_eq_of_cons_eq h)
      exact ⟨by rw [List.head_eq_of_cons_eq h], rfl⟩
    | quotation => exact absurd (List.head_eq_of_cons_eq h) ht.2.2
    | group => exact absurd (List.head_eq_of_cons_eq h) ht.1
  | quotation hwords _ ih =>
    cases hus with
    | nil | group => exact absurd (List.head_eq_of_cons_eq h) (by decide)
    | word ht _ => exact absurd (List.head_eq_of_cons_eq h).symm ht.2.2
    | quotation hwords' hus =>
      have htail := List.tail_eq_of_cons_eq h
      simp only [List.append_eq, List.append_assoc, List.cons_append] at htail
      obtain ⟨rfl, hrest⟩ := quotation_inj hwords hwords' htail
      obtain ⟨rfl, rfl⟩ := ih hus hrest
      exact ⟨rfl, rfl⟩
  | group _ _ _ ihgroup ihrest =>
    cases hus with
    | nil | quotation => exact absurd (List.head_eq_of_cons_eq h) (by decide)
    | word ht _ => exact absurd (List.head_eq_of_cons_eq h).symm ht.1
    | group _ hgroup hrest =>
      -- First the inner group ends at the same place on both sides, then the outer one.
      have htail := List.tail_eq_of_cons_eq h
      simp only [List.append_eq, List.append_assoc, List.cons_append] at htail
      obtain ⟨rfl, hafter⟩ := ihgroup hgroup htail
      obtain ⟨rfl, rfl⟩ := ihrest hrest hafter
      exact ⟨rfl, rfl⟩

theorem of_group (hts : Nested (fun _ => True) ts) (h : Nested P ("(" :: (ts ++ ")" :: us))) :
    P ts ∧ Nested P ts ∧ Nested P us := by
  generalize htokens : "(" :: (ts ++ ")" :: us) = tokens at h
  cases h with
  | nil => cases htokens
  | word ht _ => exact absurd (List.head_eq_of_cons_eq htokens).symm ht.1
  | quotation => exact absurd (List.head_eq_of_cons_eq htokens) (by decide)
  | group hP hgroup hrest =>
    obtain ⟨rfl, rfl⟩ := append_inj hts hgroup (List.tail_eq_of_cons_eq htokens)
    exact ⟨hP, hgroup, hrest⟩

end Nested

theorem nested_of_isIdentifier {P : List Token → Prop} {ts : List Token}
    (h : ∀ t ∈ ts, isIdentifier t = true) : Nested P ts := by
  induction ts with
  | nil => exact .nil
  | cons t ts ih =>
    rw [List.forall_mem_cons] at h
    exact .word (ne_delimiter_of_isIdentifier h.1) (ih h.2)

/-- Where nothing is quoted, groups are the only ones to have parentheses. -/
theorem balanced_of_nested {ts : List Token} (h : Nested (balanced · = true) ts)
    (hquote : "\"" ∉ ts) : balanced ts = true := by
  induction h with
  | nil => rfl
  | word ht _ ih =>
    rw [balanced, openAfter_cons_of_ne ht.1 ht.2.1]
    exact ih (fun hmem => hquote (List.mem_cons_of_mem _ hmem))
  | quotation => exact absurd List.mem_cons_self hquote
  | group hbalanced _ _ _ ih =>
    rw [balanced, openAfter_group hbalanced]
    exact ih (fun hmem => hquote (by simp [hmem]))

/-! ## What is read is nested -/

theorem ne_delimiter_of_headOf {F : List String} {t : Token} {head : Head}
    (hF : ")" ∉ F) (h : Head.of F t = head)
    (hhead : head ≠ .group ∧ head ≠ .quotation ∧ head ≠ .unknown) :
    t ≠ "(" ∧ t ≠ ")" ∧ t ≠ "\"" := by
  refine ⟨?_, ?_, ?_⟩
  · rintro rfl
    exact hhead.1 h.symm
  · rintro rfl
    have hreserved : isReserved ")" = false := by decide
    refine hhead.2.2 ?_
    rw [← h, headOf_of_not_isReserved hreserved, if_neg hF]
    rfl
  · rintro rfl
    exact hhead.2.1 h.symm

section Reads

variable {F : List String}

mutual

/-- What is read is nested, and each group of it is balanced. -/
theorem Reads.nested (hF : ")" ∉ F) : ∀ {ts rest : List Token} {e : Expr}, Reads F ts e rest →
    Nested (balanced · = true) rest → Nested (balanced · = true) ts
  | _, _, _, .nothing, _ => .nil
  | _, _, _, .group hbalanced h, hrest => .group hbalanced (h.nested hF .nil) hrest
  | _, _, _, .quotation hwords, hrest => .quotation hwords hrest
  | _, _, _, .part hhead h, hrest =>
    .word (ne_delimiter_of_headOf hF hhead (by simp)) (h.nested hF hrest)
  | _, _, _, .apply hhead hes, _ | _, _, _, .list hhead hes, _ | _, _, _, .ite hhead hes, _
  | _, _, _, .call hhead hes, _ =>
    .word (ne_delimiter_of_headOf hF hhead (by simp)) (hes.nested hF)
  | _, _, _, .letIn hhead hbalanced hbs hes, _ =>
    .word (ne_delimiter_of_headOf hF hhead (by simp))
      (.group hbalanced (hbs.nested hF) (hes.nested hF))
  | _, _, _, .defun hhead hname hparameters _ hes, _ =>
    .word (ne_delimiter_of_headOf hF hhead (by simp))
      (.word (ne_delimiter_of_isIdentifier hname)
        (.group (balanced_of_isIdentifier hparameters) (nested_of_isIdentifier hparameters)
          (hes.nested hF)))
  | _, _, _, .bool hhead, hrest | _, _, _, .numeral hhead _, hrest | _, _, _, .name hhead, hrest =>
    .word (ne_delimiter_of_headOf hF hhead (by simp)) hrest

theorem ReadsAll.nested (hF : ")" ∉ F) : ∀ {ts : List Token} {es : List Expr},
    ReadsAll F ts es → Nested (balanced · = true) ts
  | _, _, .nil => .nil
  | _, _, .cons he hes => he.nested hF (hes.nested hF)

theorem ReadsBindings.nested (hF : ")" ∉ F) : ∀ {ts : List Token} {bs : List (String × Expr)},
    ReadsBindings F ts bs → Nested (balanced · = true) ts
  | _, _, .nil => .nil
  | _, _, .cons hx hbalanced he hbs =>
    .group ((balanced_cons_of_isAtom (isAtom_of_isIdentifier hx)).trans hbalanced)
      (.word (ne_delimiter_of_isIdentifier hx) (he.nested hF .nil)) (hbs.nested hF)

end

end Reads

/-! ## Source texts -/

namespace Expr

variable {word : Token → Bool}

theorem nested_tokens {e : Expr} {ts : List Token} (hword : ∀ w, word w = true → w ≠ "\"")
    (he : legible word e = true) (hgroup : ∀ us, e.group? = some us → Nested (fun _ => True) us)
    (hts : Nested (fun _ => True) ts) : Nested (fun _ => True) (e.tokens ++ ts) := by
  cases h : e.group? with
  | some us =>
    rw [tokens_of_group? he h, List.cons_append, List.append_assoc]
    exact .group trivial (hgroup us h) hts
  | none =>
    rcases tokens_of_group?_eq_none he h with ⟨t, hatom, htokens, -⟩ | ⟨text, rfl⟩
    · rw [htokens]
      exact .word (ne_delimiter_of_isAtom hatom) hts
    · simp only [legible, isPhrase, Bool.and_eq_true, List.all_eq_true] at he
      rw [tokens_str, List.cons_append, List.append_assoc]
      exact .quotation (fun w hw => hword w (he.1 w hw)) hts

mutual

/-- The source text of a legible tree is nested as the tree is. -/
theorem nested_group (hword : ∀ w, word w = true → w ≠ "\"") :
    ∀ e, every (legible word) e = true → ∀ us, e.group? = some us → Nested (fun _ => True) us
  | list es, he, _, rfl => by
    simp only [every, Bool.and_eq_true] at he
    exact .word (by decide) (nested_tokensAll hword es he.2)
  | part w e, he, _, rfl => by
    simp only [every, Bool.and_eq_true] at he
    rw [← List.append_nil e.tokens]
    exact .word (by cases w <;> decide)
      (nested_tokens hword (every_self he.2) (nested_group hword e he.2) .nil)
  | apply o es, he, _, rfl => by
    simp only [every, Bool.and_eq_true] at he
    exact .word (by cases o <;> decide) (nested_tokensAll hword es he.2)
  | ite c t e, he, _, rfl => by
    simp only [every, Bool.and_eq_true] at he
    have hlast := nested_tokens hword (every_self he.2.2) (nested_group hword e he.2.2) .nil
    have hmiddle := nested_tokens hword (every_self he.2.1.2) (nested_group hword t he.2.1.2) hlast
    exact .word (by decide)
      (nested_tokens hword (every_self he.2.1.1) (nested_group hword c he.2.1.1) hmiddle)
  | letIn bs es, he, _, rfl => by
    simp only [every, Bool.and_eq_true, legible, List.all_eq_true] at he
    exact .word (by decide) (.group trivial (nested_tokensBindings hword bs he.1 he.2.1)
      (nested_tokensAll hword es he.2.2))
  | call f es, he, _, rfl => by
    simp only [every, Bool.and_eq_true, legible] at he
    exact .word (ne_delimiter_of_isIdentifier he.1.1) (nested_tokensAll hword es he.2)
  | defun f ps es, he, _, rfl => by
    simp only [every, Bool.and_eq_true, legible, List.all_eq_true] at he
    exact .word (by decide) (.word (ne_delimiter_of_isIdentifier he.1.1.1)
      (.group trivial (nested_of_isIdentifier he.1.1.2) (nested_tokensAll hword es he.2)))
  | empty, _, _, rfl => .nil

theorem nested_tokensAll (hword : ∀ w, word w = true → w ≠ "\"") :
    ∀ es, everyAll (legible word) es = true → Nested (fun _ => True) (tokensAll es)
  | [], _ => .nil
  | e :: es, he => by
    simp only [everyAll, Bool.and_eq_true] at he
    exact nested_tokens hword (every_self he.1) (nested_group hword e he.1)
      (nested_tokensAll hword es he.2)

theorem nested_tokensBindings (hword : ∀ w, word w = true → w ≠ "\"") :
    ∀ bs : List (String × Expr), (∀ b ∈ bs, isIdentifier b.1 = true) →
      everyBound (legible word) bs = true → Nested (fun _ => True) (tokensBindings bs)
  | [], _, _ => .nil
  | (x, e) :: bs, hx, he => by
    simp only [everyBound, Bool.and_eq_true] at he
    rw [List.forall_mem_cons] at hx
    have hvalue := nested_tokens hword (every_self he.1) (nested_group hword e he.1) .nil
    rw [List.append_nil] at hvalue
    rw [tokensBindings_cons hx.1]
    exact .group trivial (.word (ne_delimiter_of_isIdentifier hx.1) hvalue)
      (nested_tokensBindings hword bs hx.2 he.2)

end

/-! ### Balanced source texts are those of closed trees -/

/-- The groups of a source text are those of the tree. -/
theorem of_nested_tokens (hword : ∀ w, word w = true → w ≠ "\"") {e : Expr} {ts : List Token}
    {P : List Token → Prop} (he : every (legible word) e = true) (h : Nested P (e.tokens ++ ts)) :
    (∀ us, e.group? = some us → P us ∧ Nested P us) ∧ Nested P ts := by
  cases hgroup : e.group? with
  | some us =>
    -- There is one way to nest, so the group that is balanced is that of the tree.
    rw [tokens_of_group? (every_self he) hgroup, List.cons_append, List.append_assoc] at h
    obtain ⟨hP, hus, hts⟩ := Nested.of_group (nested_group hword e he us hgroup) h
    refine ⟨?_, hts⟩
    rintro _ ⟨⟩
    exact ⟨hP, hus⟩
  | none =>
    -- An atom or a quotation, which is no group and has none inside.
    refine ⟨nofun, ?_⟩
    rcases tokens_of_group?_eq_none (every_self he) hgroup with ⟨t, hatom, htokens, -⟩ | ⟨text, rfl⟩
    · rw [htokens] at h
      exact h.of_word (ne_delimiter_of_isAtom hatom)
    · simp only [every, legible, isPhrase, Bool.and_eq_true, List.all_eq_true] at he
      rw [tokens_str, List.cons_append, List.append_assoc] at h
      exact h.of_quotation fun w hw => hword w (he.1 w hw)

mutual

/-- A tree is closed, if the groups of its source text are balanced. -/
theorem closed_of_group (hword : ∀ w, word w = true → w ≠ "\"") :
    ∀ e, every (legible word) e = true →
      (∀ us, e.group? = some us → balanced us = true ∧ Nested (balanced · = true) us) →
      every closed e = true
  | int _, _, _ | bool _, _, _ | str _, _, _ | var _, _, _ | empty, _, _ => rfl
  | list es, he, h => by
    simp only [every, Bool.and_eq_true] at he ⊢
    obtain ⟨hbalanced, hnested⟩ := h _ rfl
    have hes := closed_of_nested hword es he.2 (hnested.of_word (by decide))
    -- The elements are closed, so only their loose tokens count for the balance of the group.
    rw [balanced_cons_of_isAtom (by decide), balanced, openAfter_tokensAll es he.2 hes] at hbalanced
    exact ⟨hbalanced, hes⟩
  | part w e, he, h => by
    simp only [every, Bool.and_eq_true] at he ⊢
    obtain ⟨hbalanced, hnested⟩ := h _ rfl
    have htarget := hnested.of_word (by cases w <;> decide)
    rw [← List.append_nil e.tokens] at htarget
    have hclosed := closed_of_group hword e he.2 (of_nested_tokens hword he.2 htarget).1
    rw [balanced_cons_of_isAtom (by cases w <;> decide), balanced,
      openAfter_tokens (every_self he.2) (balanced_group e he.2 hclosed)] at hbalanced
    exact ⟨hbalanced, hclosed⟩
  | apply o es, he, h => by
    simp only [every, Bool.and_eq_true] at he ⊢
    obtain ⟨hbalanced, hnested⟩ := h _ rfl
    have hes := closed_of_nested hword es he.2 (hnested.of_word (by cases o <;> decide))
    rw [balanced_cons_of_isAtom (by cases o <;> decide), balanced,
      openAfter_tokensAll es he.2 hes] at hbalanced
    exact ⟨hbalanced, hes⟩
  | ite c t e, he, h => by
    simp only [every, Bool.and_eq_true] at he ⊢
    obtain ⟨hbalanced, hnested⟩ := h _ rfl
    obtain ⟨hgroup, hrest⟩ := of_nested_tokens hword he.2.1.1 (hnested.of_word (by decide))
    have hc := closed_of_group hword c he.2.1.1 hgroup
    obtain ⟨hgroup, hrest⟩ := of_nested_tokens hword he.2.1.2 hrest
    have ht := closed_of_group hword t he.2.1.2 hgroup
    have he' := closed_of_group hword e he.2.2 (of_nested_tokens hword he.2.2 hrest).1
    have hall : everyAll (legible word) [c, t, e] = true ∧ everyAll closed [c, t, e] = true := by
      simp [everyAll, he.2, hc, ht, he']
    rw [balanced_cons_of_isAtom (by decide), balanced,
      openAfter_tokensAll _ hall.1 hall.2] at hbalanced
    exact ⟨hbalanced, ⟨hc, ht⟩, he'⟩
  | letIn bs es, he, h => by
    simp only [every, Bool.and_eq_true, legible, closed, List.all_eq_true] at he ⊢
    obtain ⟨hbalanced, hnested⟩ := h _ rfl
    -- The bindings are a group in the group, which ends where the tree says.
    obtain ⟨hinner, hbindings, hbody⟩ := Nested.of_group
      (nested_tokensBindings hword bs he.1 he.2.1) (hnested.of_word (by decide))
    obtain ⟨hloose, hbs⟩ := closed_of_nestedBindings hword bs he.1 he.2.1 hbindings
    have hes := closed_of_nested hword es he.2.2 hbody
    rw [balanced_cons_of_isAtom (by decide), balanced, openAfter_group hinner,
      openAfter_tokensAll es he.2.2 hes] at hbalanced
    exact ⟨⟨hloose, hbalanced⟩, hbs, hes⟩
  | call f es, he, h => by
    simp only [every, Bool.and_eq_true, legible] at he ⊢
    obtain ⟨hbalanced, hnested⟩ := h _ rfl
    have hes := closed_of_nested hword es he.2
      (hnested.of_word (ne_delimiter_of_isIdentifier he.1.1))
    rw [balanced_cons_of_isAtom (isAtom_of_isIdentifier he.1.1), balanced,
      openAfter_tokensAll es he.2 hes] at hbalanced
    exact ⟨hbalanced, hes⟩
  | defun f ps es, he, h => by
    simp only [every, Bool.and_eq_true, legible, List.all_eq_true] at he ⊢
    obtain ⟨hbalanced, hnested⟩ := h _ rfl
    have hname := hnested.of_word (by decide)
    obtain ⟨hinner, -, hbody⟩ := Nested.of_group (nested_of_isIdentifier he.1.1.2)
      (hname.of_word (ne_delimiter_of_isIdentifier he.1.1.1))
    have hes := closed_of_nested hword es he.2 hbody
    rw [balanced_cons_of_isAtom (by decide),
      balanced_cons_of_isAtom (isAtom_of_isIdentifier he.1.1.1), balanced, openAfter_group hinner,
      openAfter_tokensAll es he.2 hes] at hbalanced
    exact ⟨hbalanced, hes⟩

theorem closed_of_nested (hword : ∀ w, word w = true → w ≠ "\"") :
    ∀ es, everyAll (legible word) es = true → Nested (balanced · = true) (tokensAll es) →
      everyAll closed es = true
  | [], _, _ => rfl
  | e :: es, he, h => by
    simp only [everyAll, Bool.and_eq_true] at he ⊢
    obtain ⟨hgroup, hes⟩ := of_nested_tokens hword he.1 h
    exact ⟨closed_of_group hword e he.1 hgroup, closed_of_nested hword es he.2 hes⟩

theorem closed_of_nestedBindings (hword : ∀ w, word w = true → w ≠ "\"") :
    ∀ bs : List (String × Expr), (∀ b ∈ bs, isIdentifier b.1 = true) →
      everyBound (legible word) bs = true → Nested (balanced · = true) (tokensBindings bs) →
      (∀ b ∈ bs, balanced b.2.loose = true) ∧ everyBound closed bs = true
  | [], _, _, _ => ⟨by simp, rfl⟩
  | (x, e) :: bs, hx, he, h => by
    simp only [everyBound, Bool.and_eq_true] at he ⊢
    rw [List.forall_mem_cons] at hx ⊢
    have hvalue := nested_tokens hword (every_self he.1) (nested_group hword e he.1) .nil
    rw [List.append_nil] at hvalue
    rw [tokensBindings_cons hx.1, ← List.cons_append] at h
    obtain ⟨hbalanced, hbinding, hrest⟩ := Nested.of_group
      (.word (ne_delimiter_of_isIdentifier hx.1) hvalue) h
    have htokens := hbinding.of_word (ne_delimiter_of_isIdentifier hx.1)
    rw [← List.append_nil e.tokens] at htokens
    have hclosed := closed_of_group hword e he.1 (of_nested_tokens hword he.1 htokens).1
    obtain ⟨hloose, hbs⟩ := closed_of_nestedBindings hword bs hx.2 he.2 hrest
    rw [balanced_cons_of_isAtom (isAtom_of_isIdentifier hx.1), balanced,
      openAfter_tokens (every_self he.1) (balanced_group e he.1 hclosed)] at hbalanced
    exact ⟨⟨hbalanced, hloose⟩, hclosed, hbs⟩

end

end Expr

end LazyLisp
