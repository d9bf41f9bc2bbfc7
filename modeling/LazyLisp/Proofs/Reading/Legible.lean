import LazyLisp.Expr.Writable
import LazyLisp.Proofs.Expr.Every
import LazyLisp.Proofs.Reading.Numerals

/-!
# Legible trees

Which trees have a source text that is read as the same tree again. Three
conditions on the nodes of a tree decide:

* `Expr.legible`: its names and its texts are such as can be read;
* `Expr.resolved`: its calls, and none of its variables, have the names of
  functions;
* `Expr.closed`: the parentheses inside its texts do not lead the matching of
  parentheses astray, which takes no notice of quotation marks.

The first says what the tokens of the source text are (`Expr.tokens_of_group?`),
the third that every group among them is balanced (`Expr.balanced_group`).
-/

namespace LazyLisp

/-- A text of such words, a single space between each two. -/
def isPhrase (word : Token → Bool) (text : String) : Bool :=
  (tokenize text).all word && joinTokens (tokenize text) = text

/-- A phrase of atoms is any atoms joined by single spaces. -/
theorem isPhrase_isAtom_iff {text : String} : isPhrase isAtom text = true ↔
    ∃ words, (∀ w ∈ words, isAtom w = true) ∧ text = joinTokens words := by
  rw [isPhrase, Bool.and_eq_true, List.all_eq_true, decide_eq_true_iff]
  constructor
  · rintro ⟨hall, htext⟩
    exact ⟨tokenize text, hall, htext.symm⟩
  · rintro ⟨words, hall, rfl⟩
    rw [tokenize_joinTokens fun w hw => tokenize_of_isAtom (hall w hw)]
    exact ⟨hall, rfl⟩

namespace Expr

/-! ## Conditions on the nodes of a tree -/

/-- The names and the texts of the node can be read: names are identifiers, and
    those at the front of an expression mean nothing else; texts are made of
    such words; and integers are within the digit limit. -/
def legible (word : Token → Bool) : Expr → Bool
  | int n => fitsDigitLimit n
  | str t => isPhrase word t
  | var x => isIdentifier x && !isReserved x
  | letIn bs _ => bs.all fun b => isIdentifier b.1
  | call f _ => isIdentifier f && !isReserved f
  | defun f ps es => isIdentifier f && ps.all isIdentifier && !es.isEmpty
  | deferred _ _ => false
  | bool _ | list _ | part _ _ | apply _ _ | ite _ _ _ | empty => true

/-- A call is of a function, a variable has no function's name. -/
def resolved (functions : List String) : Expr → Bool
  | var x => x ∉ functions
  | call f _ => f ∈ functions
  | _ => true

/-- The tokens that a node leaves in the group around it, as far as parentheses
    go: those inside a text count, and every other node is balanced. -/
def loose : Expr → List Token
  | str t => tokenize t
  | _ => []

/-- Within the node, the parentheses inside of texts match: those in the same
    group taken together. -/
def closed : Expr → Bool
  | list es | apply _ es | call _ es | defun _ _ es => balanced (es.flatMap loose)
  | part _ e => balanced e.loose
  | ite c t e => balanced ([c, t, e].flatMap loose)
  | letIn bs es => (bs.all fun b => balanced b.2.loose) && balanced (es.flatMap loose)
  | _ => true

variable {word : Token → Bool}

mutual

/-- A legible tree has a source text. -/
theorem writable_of_legible : ∀ e, every (legible word) e = true → writable e = true
  | int n, h => h
  | bool b, _ | str t, _ | var x, _ | empty, _ => rfl
  | list es, h | apply o es, h | call f es, h | defun f ps es, h => by
    simp only [every, Bool.and_eq_true] at h
    exact writableAll_of_legible es h.2
  | part w e, h | deferred e l, h => by
    simp only [every, Bool.and_eq_true] at h
    exact writable_of_legible e h.2
  | ite c t e, h => by
    simp only [every, Bool.and_eq_true] at h
    simp only [writable, Bool.and_eq_true]
    exact ⟨⟨writable_of_legible c h.2.1.1, writable_of_legible t h.2.1.2⟩,
      writable_of_legible e h.2.2⟩
  | letIn bs es, h => by
    simp only [every, Bool.and_eq_true] at h
    simp only [writable, Bool.and_eq_true]
    exact ⟨writableBindings_of_legible bs h.2.1, writableAll_of_legible es h.2.2⟩

theorem writableAll_of_legible : ∀ es, everyAll (legible word) es = true → writableAll es = true
  | [], _ => rfl
  | e :: es, h => by
    simp only [everyAll, Bool.and_eq_true] at h
    simp only [writableAll, Bool.and_eq_true]
    exact ⟨writable_of_legible e h.1, writableAll_of_legible es h.2⟩

theorem writableBindings_of_legible :
    ∀ bs, everyBound (legible word) bs = true → writableBindings bs = true
  | [], _ => rfl
  | (x, e) :: bs, h => by
    simp only [everyBound, Bool.and_eq_true] at h
    simp only [writableBindings, Bool.and_eq_true]
    exact ⟨writable_of_legible e h.1, writableBindings_of_legible bs h.2⟩

end

/-! ## The tokens of a source text -/

/-- The tokens of the source text. -/
def tokens (e : Expr) : List Token := tokenize e.source

/-- The tokens of the source texts, in order. -/
def tokensAll (es : List Expr) : List Token := (sourceAll es).flatMap tokenize

/-- The tokens of the source texts of the bindings, in order. -/
def tokensBindings (bs : List (String × Expr)) : List Token := (sourceBindings bs).flatMap tokenize

/-- What stands between the parentheses of the source text, if it is a group. -/
def group? : Expr → Option (List Token)
  | list es => some ("list" :: tokensAll es)
  | part w e => some (w.symbol :: e.tokens)
  | apply o es => some (o.symbol :: tokensAll es)
  | ite c t e => some ("if" :: tokensAll [c, t, e])
  | letIn bs es => some ("let" :: "(" :: (tokensBindings bs ++ ")" :: tokensAll es))
  | call f es => some (f :: tokensAll es)
  | defun f ps es => some ("defun" :: f :: "(" :: (ps ++ ")" :: tokensAll es))
  | empty => some []
  | int _ | bool _ | str _ | var _ | deferred _ _ => none

@[simp] theorem tokensAll_nil : tokensAll [] = [] := rfl

@[simp] theorem tokensAll_cons (e : Expr) (es : List Expr) :
    tokensAll (e :: es) = e.tokens ++ tokensAll es := rfl

@[simp] theorem tokensBindings_nil : tokensBindings [] = [] := rfl

theorem tokensBindings_cons {x : String} (hx : isIdentifier x = true) (e : Expr)
    (bs : List (String × Expr)) :
    tokensBindings ((x, e) :: bs) = "(" :: x :: (e.tokens ++ ")" :: tokensBindings bs) := by
  have hform : tokenize (formText [x, e.source]) = "(" :: x :: (e.tokens ++ [")"]) := by
    simp [tokenize_formText, tokenize_of_isAtom (isAtom_of_isIdentifier hx), tokens]
  rw [tokensBindings, sourceBindings, List.flatMap_cons, hform]
  simp [tokensBindings]

theorem tokens_str (t : String) : (str t).tokens = "\"" :: (tokenize t ++ ["\""]) := by
  have hquote (u : String) : tokenize ("\" " ++ u) = "\"" :: tokenize u := by
    simp [tokenize, lexemes_cons_of_isDelimiter (show isBlank '"' = false from rfl) rfl,
      lexemes_cons_of_isBlank (show isBlank ' ' = true from rfl)]
  rw [tokens, source]
  split
  · next ht => rw [ht]; decide
  · rw [tokenize_append (by decide), hquote]
    rfl

theorem flatMap_tokenize_of_isIdentifier {ps : List String}
    (h : ∀ p ∈ ps, isIdentifier p = true) : ps.flatMap tokenize = ps := by
  rw [← tokenize_intercalate]
  exact tokenize_joinTokens fun p hp => tokenize_of_isAtom (isAtom_of_isIdentifier (h p hp))

/-- A source text in parentheses has the tokens of its parts. -/
theorem tokens_of_group? {e : Expr} {ts : List Token} (he : legible word e = true)
    (h : e.group? = some ts) : e.tokens = "(" :: (ts ++ [")"]) := by
  cases e with
  | int | bool | str | var | deferred => cases h
  | list es =>
    cases h
    exact tokenize_form (by decide) _
  | part w e =>
    cases h
    rw [tokens, source, tokenize_form (by cases w <;> decide), List.flatMap_singleton]
    rfl
  | apply o es =>
    cases h
    exact tokenize_form (by cases o <;> decide) _
  | ite c t e =>
    cases h
    exact tokenize_form (by decide) _
  | letIn bs es =>
    cases h
    rw [tokens, source, tokenize_form (by decide), List.flatMap_cons, tokenize_formText]
    simp [tokensBindings, tokensAll]
  | call f es =>
    cases h
    rw [legible, Bool.and_eq_true] at he
    exact tokenize_form (isAtom_of_isIdentifier he.1) _
  | defun f ps es =>
    cases h
    simp only [legible, Bool.and_eq_true, List.all_eq_true] at he
    rw [tokens, source, tokenize_form (by decide), List.flatMap_cons, List.flatMap_cons,
      tokenize_formText, flatMap_tokenize_of_isIdentifier he.1.2,
      tokenize_of_isAtom (isAtom_of_isIdentifier he.1.1)]
    simp [tokensAll]
  | empty => cases h; decide

/-- A source text that is no group is an atom or a quotation. -/
theorem tokens_of_group?_eq_none {e : Expr} (he : legible word e = true) (h : e.group? = none) :
    (∃ t, isAtom t = true ∧ e.tokens = [t] ∧ e.loose = [] ∧ every closed e = true) ∨
      ∃ text, e = str text := by
  cases e with
  | int n =>
    have hatom := isAtom_of_isNumeral (isNumeral_decimal n)
    exact .inl ⟨_, hatom, tokenize_of_isAtom hatom, rfl, rfl⟩
  | bool b => cases b <;> exact .inl ⟨_, by decide, rfl, rfl, rfl⟩
  | str text => exact .inr ⟨text, rfl⟩
  | var x =>
    rw [legible, Bool.and_eq_true] at he
    have hatom := isAtom_of_isIdentifier he.1
    exact .inl ⟨_, hatom, tokenize_of_isAtom hatom, rfl, rfl⟩
  | deferred => cases he
  | _ => cases h

theorem tokens_ne_nil {e : Expr} (he : legible word e = true) : e.tokens ≠ [] := by
  cases h : e.group? with
  | some ts => simp [tokens_of_group? he h]
  | none =>
    rcases tokens_of_group?_eq_none he h with ⟨t, -, htokens, -⟩ | ⟨text, rfl⟩
    · simp [htokens]
    · simp [tokens_str]

/-! ## Balance -/

theorem loose_of_group? {e : Expr} {ts : List Token} (h : e.group? = some ts) : e.loose = [] := by
  cases e with
  | str t => cases h
  | _ => rfl

/-- To the group around it, a node contributes the parentheses of its loose
    tokens. -/
theorem openAfter_tokens {e : Expr} (he : legible word e = true)
    (hgroup : ∀ ts, e.group? = some ts → balanced ts = true) (depth : Nat) :
    openAfter depth e.tokens = openAfter depth e.loose := by
  cases h : e.group? with
  | some ts =>
    rw [tokens_of_group? he h, openAfter_group (hgroup ts h), loose_of_group? h]
  | none =>
    rcases tokens_of_group?_eq_none he h with ⟨t, hatom, htokens, hloose, -⟩ | ⟨text, rfl⟩
    · rw [htokens, hloose, openAfter_cons_of_isAtom hatom]
    · rw [tokens_str, openAfter_cons_of_ne (by decide) (by decide), openAfter_append, loose]
      cases openAfter depth (tokenize text) <;> rfl

mutual

/-- All groups in the source text of a closed tree are balanced. -/
theorem balanced_group : ∀ e, every (legible word) e = true → every closed e = true →
    ∀ ts, e.group? = some ts → balanced ts = true
  | list es, he, hc, _, rfl => by
    simp only [every, Bool.and_eq_true] at he hc
    rw [balanced_cons_of_isAtom (by decide), balanced, openAfter_tokensAll es he.2 hc.2]
    exact hc.1
  | part w e, he, hc, _, rfl => by
    simp only [every, Bool.and_eq_true] at he hc
    rw [balanced_cons_of_isAtom (by cases w <;> decide), balanced,
      openAfter_tokens (every_self he.2) (balanced_group e he.2 hc.2)]
    exact hc.1
  | apply o es, he, hc, _, rfl => by
    simp only [every, Bool.and_eq_true] at he hc
    rw [balanced_cons_of_isAtom (by cases o <;> decide), balanced,
      openAfter_tokensAll es he.2 hc.2]
    exact hc.1
  | ite c t e, he, hc, _, rfl => by
    simp only [every, Bool.and_eq_true] at he hc
    have hbranches (depth : Nat) :
        openAfter depth (tokensAll [c, t, e]) = openAfter depth ([c, t, e].flatMap loose) := by
      simp only [tokensAll_cons, List.flatMap_cons, openAfter_append,
        openAfter_tokens (every_self he.2.1.1) (balanced_group c he.2.1.1 hc.2.1.1),
        openAfter_tokens (every_self he.2.1.2) (balanced_group t he.2.1.2 hc.2.1.2),
        openAfter_tokens (every_self he.2.2) (balanced_group e he.2.2 hc.2.2)]
      rfl
    rw [balanced_cons_of_isAtom (by decide), balanced, hbranches]
    exact hc.1
  | letIn bs es, he, hc, _, rfl => by
    simp only [every, Bool.and_eq_true, closed, List.all_eq_true, legible] at he hc
    -- The bindings are a balanced group, so the parentheses of the body are what is left.
    have hbindings := balanced_tokensBindings bs he.1 hc.1.1 he.2.1 hc.2.1
    rw [balanced_cons_of_isAtom (by decide), balanced, openAfter_group hbindings,
      openAfter_tokensAll es he.2.2 hc.2.2]
    exact hc.1.2
  | call f es, he, hc, _, rfl => by
    simp only [every, Bool.and_eq_true, legible] at he hc
    rw [balanced_cons_of_isAtom (isAtom_of_isIdentifier he.1.1), balanced,
      openAfter_tokensAll es he.2 hc.2]
    exact hc.1
  | defun f ps es, he, hc, _, rfl => by
    simp only [every, Bool.and_eq_true, legible, List.all_eq_true] at he hc
    rw [balanced_cons_of_isAtom (by decide),
      balanced_cons_of_isAtom (isAtom_of_isIdentifier he.1.1.1), balanced,
      openAfter_group (balanced_of_isIdentifier he.1.1.2), openAfter_tokensAll es he.2 hc.2]
    exact hc.1
  | empty, _, _, _, rfl => rfl

theorem openAfter_tokensAll : ∀ es, everyAll (legible word) es = true →
    everyAll closed es = true → ∀ depth,
      openAfter depth (tokensAll es) = openAfter depth (es.flatMap loose)
  | [], _, _, _ => rfl
  | e :: es, he, hc, depth => by
    simp only [everyAll, Bool.and_eq_true] at he hc
    rw [tokensAll_cons, List.flatMap_cons, openAfter_append, openAfter_append,
      openAfter_tokens (every_self he.1) (balanced_group e he.1 hc.1)]
    simp only [openAfter_tokensAll es he.2 hc.2]

theorem balanced_tokensBindings : ∀ bs : List (String × Expr),
    (∀ b ∈ bs, isIdentifier b.1 = true) → (∀ b ∈ bs, balanced b.2.loose = true) →
    everyBound (legible word) bs = true → everyBound closed bs = true →
      balanced (tokensBindings bs) = true
  | [], _, _, _, _ => rfl
  | (x, e) :: bs, hx, hloose, he, hc => by
    simp only [everyBound, Bool.and_eq_true] at he hc
    rw [List.forall_mem_cons] at hx hloose
    have hvalue : balanced (x :: e.tokens) = true := by
      rw [balanced_cons_of_isAtom (isAtom_of_isIdentifier hx.1), balanced,
        openAfter_tokens (every_self he.1) (balanced_group e he.1 hc.1)]
      exact hloose.1
    rw [tokensBindings_cons hx.1, balanced, ← List.cons_append, openAfter_group hvalue]
    exact balanced_tokensBindings bs hx.2 hloose.2 he.2 hc.2

end

/-! ## Texts without parentheses -/

theorem isAtom_of_mem_loose {e : Expr} (he : every (legible isAtom) e = true) :
    ∀ t ∈ e.loose, isAtom t = true := by
  intro t ht
  cases e with
  | str text =>
    simp only [every, legible, isPhrase, Bool.and_eq_true, List.all_eq_true] at he
    exact he.1 t ht
  | _ => cases ht

theorem balanced_flatMap_loose {es : List Expr} (he : ∀ e ∈ es, every (legible isAtom) e = true) :
    balanced (es.flatMap loose) = true := by
  refine balanced_of_isAtom fun t ht => ?_
  obtain ⟨e, hmem, ht⟩ := List.mem_flatMap.1 ht
  exact isAtom_of_mem_loose (he e hmem) t ht

/-- Texts made of atoms leave every group closed. -/
theorem closed_of_legible (e : Expr) (he : every (legible isAtom) e = true) :
    every closed e = true := by
  refine every_imp (fun e he => ?_) e he
  cases e with
  | list es | apply o es | call f es | defun f ps es =>
    rw [every, Bool.and_eq_true, everyAll_iff] at he
    exact balanced_flatMap_loose he.2
  | part w e =>
    rw [every, Bool.and_eq_true] at he
    exact balanced_of_isAtom (isAtom_of_mem_loose he.2)
  | ite c t e =>
    simp only [every, Bool.and_eq_true] at he
    refine balanced_flatMap_loose ?_
    simpa [and_assoc] using he.2
  | letIn bs es =>
    simp only [every, Bool.and_eq_true, everyAll_iff, everyBound_iff] at he
    rw [closed, Bool.and_eq_true, List.all_eq_true]
    exact ⟨fun b hb => balanced_of_isAtom (isAtom_of_mem_loose (he.2.1 b hb)),
      balanced_flatMap_loose he.2.2⟩
  | _ => rfl

end Expr

end LazyLisp
