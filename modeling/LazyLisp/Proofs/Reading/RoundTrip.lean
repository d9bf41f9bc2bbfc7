import LazyLisp.Proofs.Reading.Legible

/-!
# Reading undoes writing

The source text of a tree whose names, texts and calls are in order is read as
this tree, whatever tokens follow it: nothing of them is taken and nothing of
the text is left.

* `Expr.reads_tokens`: the source text conforms to the grammar, if the tree is
  legible, closed and resolved;
* `readExpr_source`: so the reader gives the tree back.
-/

namespace LazyLisp

variable {F : List String}

/-! ## First tokens -/

theorem headOf_decimal (hF : ∀ f ∈ F, isIdentifier f = true) (n : Int) :
    Head.of F (decimal n) = .numeral := by
  have hnumeral := isNumeral_decimal n
  -- The names of functions come before numerals, but none of them is one.
  refine headOf_eq_numeral_iff.2 ⟨not_isReserved_of_isNumeral hnumeral, fun hmem => ?_, hnumeral⟩
  have hname := not_isIdentifier_of_isNumeral hnumeral
  rw [hF _ hmem] at hname
  cases hname

theorem headOf_of_isIdentifier {x : Token} (hx : isIdentifier x = true)
    (hreserved : isReserved x = false) (hmem : x ∉ F) : Head.of F x = .name := by
  refine headOf_eq_name_iff.2 ⟨hreserved, hmem, ?_, hx⟩
  rw [← Bool.not_eq_true]
  intro hnumeral
  rw [not_isIdentifier_of_isNumeral hnumeral] at hx
  cases hx

namespace Expr

/-! ## Source texts conform to the grammar -/

variable {word : Token → Bool}

theorem reads_group {e : Expr} {ts : List Token} (he : legible word e = true)
    (hgroup : e.group? = some ts) (hbalanced : balanced ts = true) (h : Reads F ts e [])
    (tail : List Token) : Reads F (e.tokens ++ tail) e tail := by
  rw [tokens_of_group? he hgroup, List.cons_append, List.append_assoc]
  exact .group hbalanced h

theorem readsAll_cons {e : Expr} {es : List Expr} {ts : List Token} (he : legible word e = true)
    (hreads : Reads F (e.tokens ++ ts) e ts) (h : ReadsAll F ts es) :
    ReadsAll F (e.tokens ++ ts) (e :: es) := by
  obtain ⟨t, us, ht⟩ := List.exists_cons_of_ne_nil (tokens_ne_nil he)
  rw [ht, List.cons_append] at hreads ⊢
  exact .cons hreads h

mutual

/-- The source text of a tree is read as this tree, whatever follows it. -/
theorem reads_tokens (hF : ∀ f ∈ F, isIdentifier f = true)
    (hword : ∀ w, word w = true → w ≠ "\"") : ∀ e, every (legible word) e = true →
    every closed e = true → every (resolved F) e = true → ∀ tail, Reads F (e.tokens ++ tail) e tail
  | int n, he, _, _, tail => by
    rw [tokens, source, tokenize_of_isAtom (isAtom_of_isNumeral (isNumeral_decimal n))]
    exact .numeral (headOf_decimal hF n) (readNumeral_decimal he)
  | bool b, _, _, _, tail => by
    cases b
    · exact .bool rfl
    · exact .bool rfl
  | str t, he, _, _, tail => by
    simp only [every, legible, isPhrase, Bool.and_eq_true, List.all_eq_true, decide_eq_true_iff]
      at he
    -- The words between the quotation marks are the tokens of the text, and joined they are it.
    have hquote : Reads F ("\"" :: (tokenize t ++ "\"" :: tail)) (.str (joinTokens (tokenize t)))
      tail := .quotation fun w hw => hword w (he.1 w hw)
    rw [he.2] at hquote
    rw [tokens_str, List.cons_append, List.append_assoc]
    exact hquote
  | var x, he, _, hr, tail => by
    simp only [every, legible, resolved, Bool.and_eq_true, Bool.not_eq_true',
      decide_eq_true_iff] at he hr
    rw [tokens, source, tokenize_of_isAtom (isAtom_of_isIdentifier he.1)]
    exact .name (headOf_of_isIdentifier he.1 he.2 hr)
  | list es, he, hc, hr, tail => by
    refine reads_group (every_self he) rfl (balanced_group _ he hc _ rfl) ?_ tail
    simp only [every, Bool.and_eq_true] at he hc hr
    exact .list rfl (readsAll_tokensAll hF hword es he.2 hc.2 hr.2)
  | part w e, he, hc, hr, tail => by
    refine reads_group (every_self he) rfl (balanced_group _ he hc _ rfl) ?_ tail
    simp only [every, Bool.and_eq_true] at he hc hr
    refine .part (by cases w <;> rfl) ?_
    simpa using reads_tokens hF hword e he.2 hc.2 hr.2 []
  | apply o es, he, hc, hr, tail => by
    refine reads_group (every_self he) rfl (balanced_group _ he hc _ rfl) ?_ tail
    simp only [every, Bool.and_eq_true] at he hc hr
    exact .apply (by cases o <;> rfl) (readsAll_tokensAll hF hword es he.2 hc.2 hr.2)
  | ite c t e, he, hc, hr, tail => by
    refine reads_group (every_self he) rfl (balanced_group _ he hc _ rfl) ?_ tail
    simp only [every, Bool.and_eq_true] at he hc hr
    refine .ite rfl ?_
    have hlast := readsAll_cons (every_self he.2.2)
      (reads_tokens hF hword e he.2.2 hc.2.2 hr.2.2 []) .nil
    have hmiddle := readsAll_cons (every_self he.2.1.2)
      (reads_tokens hF hword t he.2.1.2 hc.2.1.2 hr.2.1.2 _) hlast
    exact readsAll_cons (every_self he.2.1.1)
      (reads_tokens hF hword c he.2.1.1 hc.2.1.1 hr.2.1.1 _) hmiddle
  | letIn bs es, he, hc, hr, tail => by
    refine reads_group (every_self he) rfl (balanced_group _ he hc _ rfl) ?_ tail
    simp only [every, Bool.and_eq_true, legible, closed, List.all_eq_true] at he hc hr
    exact .letIn rfl (balanced_tokensBindings bs he.1 hc.1.1 he.2.1 hc.2.1)
      (readsBindings_tokensBindings hF hword bs he.1 hc.1.1 he.2.1 hc.2.1 hr.2.1)
      (readsAll_tokensAll hF hword es he.2.2 hc.2.2 hr.2.2)
  | call f es, he, hc, hr, tail => by
    refine reads_group (every_self he) rfl (balanced_group _ he hc _ rfl) ?_ tail
    simp only [every, Bool.and_eq_true, legible, resolved, Bool.not_eq_true',
      decide_eq_true_iff] at he hc hr
    exact .call (headOf_eq_call_iff.2 ⟨he.1.2, hr.1⟩)
      (readsAll_tokensAll hF hword es he.2 hc.2 hr.2)
  | defun f ps es, he, hc, hr, tail => by
    refine reads_group (every_self he) rfl (balanced_group _ he hc _ rfl) ?_ tail
    simp only [every, Bool.and_eq_true, legible, List.all_eq_true, Bool.not_eq_true',
      List.isEmpty_eq_false_iff] at he hc hr
    refine .defun rfl he.1.1.1 he.1.1.2 ?_ (readsAll_tokensAll hF hword es he.2 hc.2 hr.2)
    -- The body is not empty, hence neither are its tokens.
    obtain ⟨e, es, rfl⟩ := List.exists_cons_of_ne_nil he.1.2
    simp only [everyAll, Bool.and_eq_true] at he
    simp [tokens_ne_nil (every_self he.2.1)]
  | empty, he, hc, _, tail => reads_group (every_self he) rfl rfl .nothing tail

theorem readsAll_tokensAll (hF : ∀ f ∈ F, isIdentifier f = true)
    (hword : ∀ w, word w = true → w ≠ "\"") : ∀ es, everyAll (legible word) es = true →
    everyAll closed es = true → everyAll (resolved F) es = true → ReadsAll F (tokensAll es) es
  | [], _, _, _ => .nil
  | e :: es, he, hc, hr => by
    simp only [everyAll, Bool.and_eq_true] at he hc hr
    exact readsAll_cons (every_self he.1) (reads_tokens hF hword e he.1 hc.1 hr.1 _)
      (readsAll_tokensAll hF hword es he.2 hc.2 hr.2)

theorem readsBindings_tokensBindings (hF : ∀ f ∈ F, isIdentifier f = true)
    (hword : ∀ w, word w = true → w ≠ "\"") : ∀ bs : List (String × Expr),
    (∀ b ∈ bs, isIdentifier b.1 = true) → (∀ b ∈ bs, balanced b.2.loose = true) →
    everyBound (legible word) bs = true → everyBound closed bs = true →
      everyBound (resolved F) bs = true → ReadsBindings F (tokensBindings bs) bs
  | [], _, _, _, _, _ => .nil
  | (x, e) :: bs, hx, hloose, he, hc, hr => by
    simp only [everyBound, Bool.and_eq_true] at he hc hr
    rw [List.forall_mem_cons] at hx hloose
    have hvalue : balanced e.tokens = true := by
      rw [balanced, openAfter_tokens (every_self he.1) (balanced_group e he.1 hc.1)]
      exact hloose.1
    have hreads := reads_tokens hF hword e he.1 hc.1 hr.1 []
    rw [List.append_nil] at hreads
    obtain ⟨t, ts, ht⟩ := List.exists_cons_of_ne_nil (tokens_ne_nil (every_self he.1))
    rw [tokensBindings_cons hx.1, ht, List.cons_append]
    rw [ht] at hvalue hreads
    exact .cons hx.1 hvalue hreads
      (readsBindings_tokensBindings hF hword bs hx.2 hloose.2 he.2 hc.2 hr.2)

end

end Expr

/-! ## Reading a source text -/

/-- Every tree whose names can be read, with calls of just the functions and
    with texts of atoms, has a source text; and before any other tokens this
    text is read as the tree, with a budget that exceeds the number of its
    tokens. -/
theorem readExpr_source {F : List String} {e : Expr} (hF : ∀ f ∈ F, isIdentifier f = true)
    (he : e.every (Expr.legible isAtom) = true) (hr : e.every (Expr.resolved F) = true) :
    e.written e.source = .ok e.source ∧
      ∀ (tail : List Token) (depth : Nat), (tokenize e.source).length < depth →
        readExpr F depth (tokenize e.source ++ tail) = .ok (e, tail) := by
  have hwritable := Expr.writable_of_legible e he
  refine ⟨by rw [Expr.written, if_pos hwritable], fun tail depth hdepth => ?_⟩
  obtain ⟨depth, rfl⟩ : ∃ d, depth = d + 1 := ⟨depth - 1, by omega⟩
  have hreads := Expr.reads_tokens hF (fun w hw => (ne_delimiter_of_isAtom hw).2.2) e he
    (Expr.closed_of_legible e he) hr tail
  refine hreads.readExpr depth ?_
  rw [List.length_append, Expr.tokens]
  omega

/-- A tree with an empty expression and a `let` without bindings among the
    arguments of a call, in front of a parenthesis that closes nothing. -/
theorem readExpr_source_emptyOperands :
    let e : Expr := .letIn [("defun", .str "a b")]
      [.call "f" [.var "x", .int (-12), .empty, .letIn [] []], .apply .subtract []]
    (∀ f ∈ ["f"], isIdentifier f = true) ∧ e.every (Expr.legible isAtom) = true ∧
      e.every (Expr.resolved ["f"]) = true ∧
      readExpr ["f"] 30 (tokenize e.source ++ [")"]) = .ok (e, [")"]) := by
  have hF : ∀ f ∈ ["f"], isIdentifier f = true := by decide
  refine ⟨hF, by decide +kernel, by decide +kernel, ?_⟩
  exact (readExpr_source hF (by decide +kernel) (by decide +kernel)).2 [")"] 30 (by decide +kernel)

end LazyLisp
