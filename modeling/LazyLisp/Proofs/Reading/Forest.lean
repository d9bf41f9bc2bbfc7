import LazyLisp.Proofs.Reading.Budget
import LazyLisp.Proofs.Reading.Failure
import LazyLisp.Proofs.Reading.Nesting

/-!
# Forests of tokens

What a list of tokens is before its delimiters are spelled out: a *forest* of words,
quotations and groups, where a group is a forest again. A forest is read by recursion on it
(`readForest`), with nothing to search for and nothing left over: most words that start a
form take all of the trees after them, and a group is one expression.

The reader of tokens has to find the groups and the quotations in a flat list, and it does
so anew at every level. It comes to the same, on failures as well, and tokens that are not
those of a forest, for their parentheses do not match, are refused
(`readSequence_eq_readForest`).

The two readers are compared through the grammar, form by form: the tokens of a forest
conform to the grammar as the expressions that the forest is read as, and no others
(`readAlike`).
-/

namespace LazyLisp

/-! ## Forests -/

/-- A token that is no delimiter. -/
structure Word where
  token : Token
  ne_delimiter : token ≠ "(" ∧ token ≠ ")" ∧ token ≠ "\"" := by decide

/-- A word, a quotation of words, or a group of trees. -/
inductive TokenTree
  | word (w : Word)
  | text (words : List Word)
  | group (trees : List TokenTree)

mutual

def TokenTree.tokens : TokenTree → List Token
  | .word w => [w.token]
  | .text words => "\"" :: (words.map Word.token ++ ["\""])
  | .group trees => "(" :: (forestTokens trees ++ [")"])

/-- The tokens of the trees, one after the other. -/
def forestTokens : List TokenTree → List Token
  | [] => []
  | tree :: trees => tree.tokens ++ forestTokens trees

end

/-! ### Reading a forest -/

/-- The one expression that a whole consists of. A whole of nothing is the empty expression. -/
def sole? : List Expr → Option Expr
  | [] => some .empty
  | [e] => some e
  | _ => none

/-- The choice that three expressions make. -/
def choice? : List Expr → Option Expr
  | [c, t, e] => some (.ite c t e)
  | _ => none

/-- Takes a part of the first expression, and leaves those after it as they are. -/
def partOfFirst (which : Part) : List Expr → List Expr
  | [] => [.part which .empty]
  | e :: es => .part which e :: es

/-- The identifier that the tree is. -/
def TokenTree.identifier? : TokenTree → Option String
  | .word w => if isIdentifier w.token then some w.token else none
  | _ => none

/-- The identifiers that the tree is a group of. -/
def TokenTree.identifiers? : TokenTree → Option (List String)
  | .group trees => trees.mapM TokenTree.identifier?
  | _ => none

mutual

/-- Reads a quotation or a group. A word is not read by itself, as it may take the trees
    after it. -/
def TokenTree.read (F : List String) : TokenTree → Option Expr
  | .word _ => none
  | .text words => some (.str (joinTokens (words.map Word.token)))
  | .group trees => (readForest F trees).bind sole?

/-- Reads the trees of a forest, given the names of the functions, as expressions one after
    the other. -/
def readForest (F : List String) : List TokenTree → Option (List Expr)
  | [] => some []
  | .word w :: rest =>
    match Head.of F w.token with
    | .form (.apply op) => do return [.apply op (← readForest F rest)]
    | .form .list => do return [.list (← readForest F rest)]
    | .form (.part which) => do return partOfFirst which (← readForest F rest)
    | .form .letIn => do return [← readLetForest F rest]
    | .form .ite => do return [← choice? (← readForest F rest)]
    | .form .defun => do return [← readDefunForest F rest]
    | .bool b => do return .bool b :: (← readForest F rest)
    | .call => do return [.call w.token (← readForest F rest)]
    | .numeral => do return .int (← (readNumeral w.token).toOption) :: (← readForest F rest)
    | .name => do return .var w.token :: (← readForest F rest)
    | .group | .quotation | .unknown => none
  | tree :: rest => do return (← tree.read F) :: (← readForest F rest)

/-- Reads the rest of a `let`: a group of bindings, then the body. -/
def readLetForest (F : List String) : List TokenTree → Option Expr
  | [] => none
  | tree :: body => do return .letIn (← tree.readBindings F) (← readForest F body)

/-- Reads the rest of a `defun`: a name, a group of parameters, and a body that is not
    empty. -/
def readDefunForest (F : List String) : List TokenTree → Option Expr
  | name :: parameters :: tree :: body => do
    return .defun (← name.identifier?) (← parameters.identifiers?) (← readForest F (tree :: body))
  | _ => none

/-- Reads the group of the bindings. -/
def TokenTree.readBindings (F : List String) : TokenTree → Option (List (String × Expr))
  | .group trees => readForestBindings F trees
  | _ => none

/-- Reads one binding: a group of a name and of an expression. -/
def TokenTree.readBinding (F : List String) : TokenTree → Option (String × Expr)
  | .group (name :: tree :: trees) => do
    return (← name.identifier?, ← (readForest F (tree :: trees)).bind sole?)
  | _ => none

/-- Reads the bindings that a group holds. -/
def readForestBindings (F : List String) : List TokenTree → Option (List (String × Expr))
  | [] => some []
  | tree :: rest => do return (← tree.readBinding F) :: (← readForestBindings F rest)

end

/-! ## The tokens of a forest -/

section Tokens

variable {ts : List Token} {depth : Nat}

theorem Word.openAfter_cons (w : Word) : openAfter depth (w.token :: ts) = openAfter depth ts :=
  openAfter_cons_of_ne w.ne_delimiter.1 w.ne_delimiter.2.1

theorem openAfter_words (words : List Word) :
    openAfter depth (words.map Word.token ++ ts) = openAfter depth ts := by
  induction words with
  | nil => rfl
  | cons w words ih => rw [List.map_cons, List.cons_append, w.openAfter_cons, ih]

theorem openAfter_quote : openAfter depth ("\"" :: ts) = openAfter depth ts :=
  openAfter_cons_of_ne (by decide) (by decide)

mutual

/-- Whatever a tree opens, it closes. -/
theorem TokenTree.openAfter_tokens : ∀ (tree : TokenTree) {depth : Nat} {ts : List Token},
    openAfter depth (tree.tokens ++ ts) = openAfter depth ts
  | .word w, _, _ => w.openAfter_cons
  | .text words, depth, ts => by
    rw [TokenTree.tokens, List.cons_append, List.append_assoc, openAfter_quote, openAfter_words,
      List.cons_append, openAfter_quote, List.nil_append]
  | .group trees, depth, ts => by
    rw [TokenTree.tokens, List.cons_append, List.append_assoc]
    exact openAfter_group (balanced_forestTokens trees)

theorem openAfter_forestTokens : ∀ (forest : List TokenTree) {depth : Nat} {ts : List Token},
    openAfter depth (forestTokens forest ++ ts) = openAfter depth ts
  | [], _, _ => rfl
  | tree :: forest, _, _ => by
    rw [forestTokens, List.append_assoc, tree.openAfter_tokens, openAfter_forestTokens forest]

theorem balanced_forestTokens (forest : List TokenTree) :
    balanced (forestTokens forest) = true := by
  rw [balanced, ← List.append_nil (forestTokens forest), openAfter_forestTokens forest]
  rfl

end

/-- Every tree has a token. -/
theorem TokenTree.exists_tokens (tree : TokenTree) : ∃ t ts, tree.tokens = t :: ts := by
  cases tree <;> exact ⟨_, _, by rw [tokens]⟩

theorem exists_forestTokens_cons (tree : TokenTree) (forest : List TokenTree) :
    ∃ t ts, forestTokens (tree :: forest) = t :: ts := by
  obtain ⟨t, ts, htokens⟩ := tree.exists_tokens
  exact ⟨t, ts ++ forestTokens forest, by rw [forestTokens, htokens, List.cons_append]⟩

end Tokens

/-! ### Where the trees are found among the tokens -/

section Shape

variable {forest : List TokenTree} {group rest : List Token} {x : String}

/-- A group at the front of the tokens is a group at the front of the forest. -/
theorem forestTokens_eq_group_iff :
    (forestTokens forest = "(" :: (group ++ ")" :: rest) ∧ balanced group = true) ↔
      ∃ trees forest', forest = .group trees :: forest' ∧ forestTokens trees = group ∧
        forestTokens forest' = rest := by
  constructor
  · rintro ⟨htokens, hbalanced⟩
    rcases forest with _ | ⟨w | words | trees, forest'⟩
    · simp [forestTokens] at htokens
    · exact absurd (List.head_eq_of_cons_eq htokens) w.ne_delimiter.1
    · exact absurd (List.head_eq_of_cons_eq htokens) (by decide)
    · simp only [forestTokens, TokenTree.tokens, List.cons_append, List.append_assoc,
        List.nil_append, List.cons.injEq, true_and] at htokens
      obtain ⟨rfl, rfl⟩ := balanced_inj (balanced_forestTokens trees) hbalanced htokens
      exact ⟨trees, forest', rfl, rfl, rfl⟩
  · rintro ⟨trees, forest', rfl, rfl, rfl⟩
    simp [forestTokens, TokenTree.tokens, balanced_forestTokens]

theorem TokenTree.identifier?_eq_some_iff {tree : TokenTree} :
    tree.identifier? = some x ↔ tree.tokens = [x] ∧ isIdentifier x = true := by
  cases tree with
  | word w =>
    simp only [identifier?, tokens, Option.ite_none_right_eq_some, Option.some.injEq,
      List.cons.injEq, and_true]
    constructor
    · rintro ⟨hw, rfl⟩
      exact ⟨rfl, hw⟩
    · rintro ⟨rfl, hw⟩
      exact ⟨hw, rfl⟩
  | text words => simp [identifier?, tokens]
  | group trees => simp [identifier?, tokens]

/-- An identifier at the front of the tokens is one at the front of the forest. -/
theorem forestTokens_eq_identifier_iff :
    (forestTokens forest = x :: rest ∧ isIdentifier x = true) ↔
      ∃ tree forest', forest = tree :: forest' ∧ tree.identifier? = some x ∧
        forestTokens forest' = rest := by
  constructor
  · rintro ⟨htokens, hx⟩
    have hne := ne_delimiter_of_isIdentifier hx
    rcases forest with _ | ⟨w | words | trees, forest'⟩
    · simp [forestTokens] at htokens
    · obtain ⟨rfl, rfl⟩ := List.cons.inj htokens
      exact ⟨_, forest', rfl, TokenTree.identifier?_eq_some_iff.2 ⟨rfl, hx⟩, rfl⟩
    · exact absurd (List.head_eq_of_cons_eq htokens).symm hne.2.2
    · exact absurd (List.head_eq_of_cons_eq htokens).symm hne.1
  · rintro ⟨tree, forest', rfl, hname, rfl⟩
    obtain ⟨htokens, hx⟩ := TokenTree.identifier?_eq_some_iff.1 hname
    exact ⟨by rw [forestTokens, htokens]; rfl, hx⟩

/-- A binding at the front of the tokens is a group of a name and of further trees. -/
theorem forestTokens_eq_binding_iff {t : Token} {ts : List Token} :
    (forestTokens forest = "(" :: x :: t :: (ts ++ ")" :: rest) ∧ isIdentifier x = true ∧
        balanced (t :: ts) = true) ↔
      ∃ name value values forest', forest = .group (name :: value :: values) :: forest' ∧
        name.identifier? = some x ∧ forestTokens (value :: values) = t :: ts ∧
        forestTokens forest' = rest := by
  constructor
  · rintro ⟨htokens, hx, hbalanced⟩
    rw [← balanced_cons_of_isAtom (isAtom_of_isIdentifier hx)] at hbalanced
    obtain ⟨trees, forest', rfl, htrees, rfl⟩ := forestTokens_eq_group_iff.1 ⟨htokens, hbalanced⟩
    obtain ⟨name, trees, rfl, hname, hvalue⟩ := forestTokens_eq_identifier_iff.1 ⟨htrees, hx⟩
    cases trees with
    | nil => simp [forestTokens] at hvalue
    | cons value values => exact ⟨name, value, values, forest', rfl, hname, hvalue, rfl⟩
  · rintro ⟨name, value, values, forest', rfl, hname, hvalue, rfl⟩
    obtain ⟨htrees, hx⟩ := forestTokens_eq_identifier_iff.2 ⟨name, _, rfl, hname, hvalue⟩
    obtain ⟨htokens, hbalanced⟩ := forestTokens_eq_group_iff.2 ⟨_, forest', rfl, htrees, rfl⟩
    rw [balanced_cons_of_isAtom (isAtom_of_isIdentifier hx)] at hbalanced
    exact ⟨htokens, hx, hbalanced⟩

/-- The names in a group of identifiers are its tokens. -/
theorem mapM_identifier?_eq_some_iff {names : List String} :
    forest.mapM TokenTree.identifier? = some names ↔
      forestTokens forest = names ∧ ∀ x ∈ names, isIdentifier x = true := by
  induction names generalizing forest with
  | nil =>
    cases forest with
    | nil => simp [forestTokens]
    | cons tree trees =>
      obtain ⟨t, ts, htokens⟩ := tree.exists_tokens
      simp [forestTokens, htokens, Option.bind_eq_some_iff]
  | cons x names ih =>
    rw [List.forall_mem_cons, ← and_assoc, forestTokens_eq_identifier_iff]
    cases forest with
    | nil => simp
    | cons tree trees =>
      simp only [List.mapM_cons, Option.bind_eq_bind, Option.bind_eq_some_iff, Option.pure_def,
        Option.some.injEq, List.cons.injEq]
      constructor
      · rintro ⟨y, hy, names', hnames, rfl, rfl⟩
        obtain ⟨htokens, hall⟩ := ih.1 hnames
        exact ⟨⟨tree, trees, ⟨rfl, rfl⟩, hy, htokens⟩, hall⟩
      · rintro ⟨⟨_, _, ⟨rfl, rfl⟩, hx, htokens⟩, hall⟩
        exact ⟨x, hx, names, ih.2 ⟨htokens, hall⟩, rfl, rfl⟩

end Shape

/-! ## The two readers -/

variable {F : List String}

theorem choice?_eq_some_iff {es : List Expr} {e : Expr} :
    choice? es = some e ↔ ∃ c t f, es = [c, t, f] ∧ e = .ite c t f := by
  constructor
  · intro h
    unfold choice? at h
    split at h
    · cases h
      exact ⟨_, _, _, rfl, rfl⟩
    · cases h
  · rintro ⟨c, t, f, rfl, rfl⟩
    rfl

section Sequences

variable {t : Token} {ts rest : List Token} {es : List Expr} {head : Head} {Q : Expr → Prop}

/-- An expression that takes all the tokens is the only one. -/
theorem readsAll_iff_of_whole (hhead : Head.of F t = head)
    (h : ∀ e rest, head.Takes F t ts e rest ↔ rest = [] ∧ Q e) :
    ReadsAll F (t :: ts) es ↔ ∃ e, Q e ∧ [e] = es := by
  simp only [readsAll_cons_iff, reads_cons_iff, hhead, h]
  constructor
  · rintro ⟨e, _, fs, ⟨rfl, he⟩, hfs, rfl⟩
    rw [readsAll_nil_iff.1 hfs]
    exact ⟨e, he, rfl⟩
  · rintro ⟨e, he, rfl⟩
    exact ⟨e, [], [], ⟨rfl, he⟩, .nil, rfl⟩

/-- An expression of a single token is followed by those of the other tokens. -/
theorem readsAll_iff_of_single (hhead : Head.of F t = head)
    (h : ∀ e rest, head.Takes F t ts e rest ↔ rest = ts ∧ Q e) :
    ReadsAll F (t :: ts) es ↔ ∃ e fs, Q e ∧ ReadsAll F ts fs ∧ e :: fs = es := by
  simp only [readsAll_cons_iff, reads_cons_iff, hhead, h]
  constructor
  · rintro ⟨e, _, fs, ⟨rfl, he⟩, hfs, rfl⟩
    exact ⟨e, fs, he, hfs, rfl⟩
  · rintro ⟨e, fs, he, hfs, rfl⟩
    exact ⟨e, ts, fs, ⟨rfl, he⟩, hfs, rfl⟩

/-- A part is taken of the first expression after it. -/
theorem readsAll_part_iff {which : Part} (hhead : Head.of F t = .form (.part which)) :
    ReadsAll F (t :: ts) es ↔ ∃ fs, ReadsAll F ts fs ∧ partOfFirst which fs = es := by
  rw [readsAll_cons_iff]
  constructor
  · rintro ⟨e, rest, fs, he, hfs, rfl⟩
    rw [reads_cons_iff, hhead] at he
    obtain ⟨target, htarget, rfl⟩ := he
    cases ts with
    | nil =>
      cases htarget
      cases hfs
      exact ⟨[], .nil, rfl⟩
    | cons u us => exact ⟨target :: fs, .cons htarget hfs, rfl⟩
  · rintro ⟨fs, hfs, rfl⟩
    cases hfs with
    | nil => exact ⟨_, _, _, .part hhead .nothing, .nil, rfl⟩
    | cons htarget hfs => exact ⟨_, _, _, .part hhead htarget, hfs, rfl⟩

theorem readsAll_text_iff {words : List Token} (hwords : ∀ w ∈ words, w ≠ "\"") :
    ReadsAll F ("\"" :: (words ++ "\"" :: rest)) es ↔
      ∃ fs, ReadsAll F rest fs ∧ .str (joinTokens words) :: fs = es := by
  rw [readsAll_cons_iff]
  constructor
  · rintro ⟨e, rest', fs, he, hfs, rfl⟩
    obtain ⟨words', heq, hwords', rfl⟩ := reads_cons_iff.1 he
    obtain ⟨rfl, rfl⟩ := Nested.quotation_inj hwords hwords' heq
    exact ⟨fs, hfs, rfl⟩
  · rintro ⟨fs, hfs, rfl⟩
    exact ⟨_, _, fs, .quotation hwords, hfs, rfl⟩

theorem readsAll_group_iff {group : List Token} (hgroup : balanced group = true) :
    ReadsAll F ("(" :: (group ++ ")" :: rest)) es ↔
      ∃ e fs, Reads F group e [] ∧ ReadsAll F rest fs ∧ e :: fs = es := by
  rw [readsAll_cons_iff]
  constructor
  · rintro ⟨e, rest', fs, he, hfs, rfl⟩
    obtain ⟨group', heq, hgroup', hinner⟩ := reads_cons_iff.1 he
    obtain ⟨rfl, rfl⟩ := balanced_inj hgroup hgroup' heq
    exact ⟨e, fs, hinner, hfs, rfl⟩
  · rintro ⟨e, fs, he, hfs, rfl⟩
    exact ⟨e, _, fs, .group hgroup he, hfs, rfl⟩

end Sequences

variable (F) in
/-- The forest is read as its tokens are. -/
def ReadAlike (forest : List TokenTree) : Prop :=
  ∀ es, ReadsAll F (forestTokens forest) es ↔ readForest F forest = some es

section Forests

variable {forest : List TokenTree}

/-- A forest is one expression, if its tokens are. -/
theorem reads_forestTokens_iff (h : ReadAlike F forest) {e : Expr} :
    Reads F (forestTokens forest) e [] ↔ (readForest F forest).bind sole? = some e := by
  cases forest with
  | nil =>
    rw [forestTokens, readForest, Option.bind_some, sole?, Option.some.injEq]
    constructor
    · intro h
      cases h
      rfl
    · rintro rfl
      exact .nothing
  | cons tree trees =>
    obtain ⟨t, ts, htokens⟩ := exists_forestTokens_cons tree trees
    simp only [Option.bind_eq_some_iff, ← h _, htokens]
    constructor
    · intro he
      exact ⟨[e], .cons he .nil, rfl⟩
    · rintro ⟨es, hes, he⟩
      obtain ⟨f, rest, fs, hf, hfs, rfl⟩ := readsAll_cons_iff.1 hes
      cases fs with
      | nil =>
        cases he
        cases hfs
        exact hf
      | cons => cases he

/-- A word and what it takes of the forest after it. The forms that have a syntax of their own
    are left to be shown. -/
theorem ReadAlike.word_cons {w : Word} (h : ReadAlike F forest)
    (hletIn : ∀ e, Head.Takes F w.token (forestTokens forest) e [] (.form .letIn) ↔
      readLetForest F forest = some e)
    (hdefun : ∀ e, Head.Takes F w.token (forestTokens forest) e [] (.form .defun) ↔
      readDefunForest F forest = some e) :
    ReadAlike F (.word w :: forest) := by
  intro es
  have htokens : forestTokens (.word w :: forest) = w.token :: forestTokens forest := rfl
  rw [ReadAlike] at h
  rw [htokens, readForest]
  cases hhead : Head.of F w.token with
  | group => exact absurd (headOf_eq_group_iff.1 hhead) w.ne_delimiter.1
  | quotation => exact absurd (headOf_eq_quotation_iff.1 hhead) w.ne_delimiter.2.2
  | form keyword =>
    cases keyword with
    | apply op | list =>
      rw [readsAll_iff_of_whole hhead fun _ _ => Iff.rfl]
      simp [h, Option.bind_eq_some_iff]
    | part which =>
      simp [readsAll_part_iff hhead, h, Option.bind_eq_some_iff]
    | letIn =>
      rw [readsAll_iff_of_whole hhead fun _ _ => Iff.rfl]
      simp [← hletIn, Option.bind_eq_some_iff, Head.Takes]
    | ite =>
      rw [readsAll_iff_of_whole hhead fun _ _ => Iff.rfl]
      simp [h, Option.bind_eq_some_iff, choice?_eq_some_iff]
    | defun =>
      rw [readsAll_iff_of_whole hhead fun _ _ => Iff.rfl]
      simp [← hdefun, Option.bind_eq_some_iff, Head.Takes]
  | bool b =>
    rw [readsAll_iff_of_single hhead fun _ _ => Iff.rfl]
    simp [h, Option.bind_eq_some_iff]
  | call =>
    rw [readsAll_iff_of_whole hhead fun _ _ => Iff.rfl]
    simp [h, Option.bind_eq_some_iff]
  | numeral =>
    rw [readsAll_iff_of_single hhead fun _ _ => Iff.rfl]
    cases readNumeral w.token <;> simp [h, Option.bind_eq_some_iff, Except.toOption]
  | name =>
    rw [readsAll_iff_of_single hhead fun _ _ => Iff.rfl]
    simp [h, Option.bind_eq_some_iff]
  | unknown => simp [readsAll_cons_iff, reads_cons_iff, hhead, Head.Takes]

theorem ReadAlike.text_cons {words : List Word} (h : ReadAlike F forest) :
    ReadAlike F (.text words :: forest) := by
  intro es
  have hwords : ∀ t ∈ words.map Word.token, t ≠ "\"" := by
    simpa using fun w _ => w.ne_delimiter.2.2
  rw [ReadAlike] at h
  simp only [forestTokens, TokenTree.tokens, List.cons_append, List.append_assoc,
    List.nil_append, readsAll_text_iff hwords]
  simp [readForest, TokenTree.read, h, Option.bind_eq_some_iff]

theorem ReadAlike.group_cons {trees : List TokenTree} (htrees : ReadAlike F trees)
    (h : ReadAlike F forest) : ReadAlike F (.group trees :: forest) := by
  intro es
  rw [ReadAlike] at h
  simp only [forestTokens, TokenTree.tokens, List.cons_append, List.append_assoc,
    List.nil_append, readsAll_group_iff (balanced_forestTokens trees),
    reads_forestTokens_iff htrees]
  simp [readForest, TokenTree.read, h, Option.bind_eq_some_iff]

/-! ### Bindings and definitions -/

variable (ih : ∀ trees, sizeOf trees < sizeOf forest → ReadAlike F trees)

include ih

/-- The bindings that a group holds. -/
theorem readsBindings_forestTokens_iff (bs : List (String × Expr)) :
    ReadsBindings F (forestTokens forest) bs ↔ readForestBindings F forest = some bs := by
  induction forest generalizing bs with
  | nil =>
    rw [forestTokens, readForestBindings, Option.some.injEq]
    constructor
    · rintro ⟨⟩
      rfl
    · rintro rfl
      exact .nil
  | cons tree rest ihrest =>
    have hrest := ihrest fun trees h => ih trees (by simp; omega)
    simp only [readForestBindings, Option.bind_eq_bind, Option.bind_eq_some_iff, Option.pure_def,
      Option.some.injEq]
    constructor
    · intro h
      generalize htokens : forestTokens (tree :: rest) = ts at h
      cases h with
      | nil =>
        obtain ⟨t, ts, heq⟩ := exists_forestTokens_cons tree rest
        rw [heq] at htokens
        cases htokens
      | @cons x t ts _ e bs hx hbalanced he hbs =>
        obtain ⟨name, value, values, _, ⟨rfl, rfl⟩, hname, hvalue, rfl⟩ :=
          forestTokens_eq_binding_iff.1 ⟨htokens, hx, hbalanced⟩
        rw [← hvalue, reads_forestTokens_iff (ih _ (by simp; omega))] at he
        exact ⟨(x, e), by simp [TokenTree.readBinding, hname, he], bs, (hrest bs).1 hbs, rfl⟩
    · rintro ⟨⟨x, e⟩, hb, cs, hcs, rfl⟩
      unfold TokenTree.readBinding at hb
      split at hb
      · next name value values =>
        obtain ⟨_, hname, hb⟩ := Option.bind_eq_some_iff.1 hb
        obtain ⟨_, he, hb⟩ := Option.bind_eq_some_iff.1 hb
        cases hb
        obtain ⟨t, ts, hvalue⟩ := exists_forestTokens_cons value values
        obtain ⟨heq, hx, hbalanced⟩ :=
          forestTokens_eq_binding_iff.2 ⟨name, value, values, rest, rfl, hname, hvalue, rfl⟩
        rw [← reads_forestTokens_iff (ih _ (by simp; omega)), hvalue] at he
        rw [heq]
        exact .cons hx hbalanced he ((hrest cs).2 hcs)
      · cases hb

/-- The rest of a `let`. -/
theorem takes_letIn_iff {t : Token} (e : Expr) :
    Head.Takes F t (forestTokens forest) e [] (.form .letIn) ↔ readLetForest F forest = some e := by
  constructor
  · rintro ⟨-, group, body, bs, es, htokens, hbalanced, hbs, hes, rfl⟩
    obtain ⟨trees, forest', rfl, rfl, rfl⟩ := forestTokens_eq_group_iff.1 ⟨htokens, hbalanced⟩
    rw [readsBindings_forestTokens_iff fun trees h => ih trees (by simp; omega)] at hbs
    rw [ih forest' (by simp)] at hes
    simp [readLetForest, TokenTree.readBindings, hbs, hes]
  · intro h
    rcases forest with _ | ⟨w | words | trees, body⟩
    iterate 3 cases h
    obtain ⟨bs, hbs, h⟩ := Option.bind_eq_some_iff.1 h
    obtain ⟨es, hes, h⟩ := Option.bind_eq_some_iff.1 h
    cases h
    obtain ⟨htokens, hbalanced⟩ := forestTokens_eq_group_iff.2 ⟨trees, body, rfl, rfl, rfl⟩
    refine ⟨rfl, _, _, bs, es, htokens, hbalanced, ?_, ?_, rfl⟩
    · exact (readsBindings_forestTokens_iff (fun trees h => ih trees (by simp; omega)) bs).2 hbs
    · exact (ih body (by simp) es).2 hes

/-- The rest of a `defun`. -/
theorem takes_defun_iff {t : Token} (e : Expr) :
    Head.Takes F t (forestTokens forest) e [] (.form .defun) ↔
      readDefunForest F forest = some e := by
  constructor
  · rintro ⟨-, x, ps, body, es, htokens, hx, hps, hbody, hes, rfl⟩
    obtain ⟨name, rest, rfl, hname, hrest⟩ := forestTokens_eq_identifier_iff.1 ⟨htokens, hx⟩
    obtain ⟨trees, rest, rfl, rfl, rfl⟩ :=
      forestTokens_eq_group_iff.1 ⟨hrest, balanced_of_isIdentifier hps⟩
    rw [ih rest (by simp; omega)] at hes
    have hparameters := mapM_identifier?_eq_some_iff.2 ⟨rfl, hps⟩
    cases rest with
    | nil => exact absurd rfl hbody
    | cons tree body => simp [readDefunForest, TokenTree.identifiers?, hname, hparameters, hes]
  · intro h
    unfold readDefunForest at h
    split at h
    · next name parameters tree body =>
      obtain ⟨x, hname, h⟩ := Option.bind_eq_some_iff.1 h
      obtain ⟨ps, hparameters, h⟩ := Option.bind_eq_some_iff.1 h
      obtain ⟨es, hes, h⟩ := Option.bind_eq_some_iff.1 h
      cases h
      cases parameters with
      | word w => cases hparameters
      | text words => cases hparameters
      | group trees =>
        obtain ⟨hps, hidentifiers⟩ := mapM_identifier?_eq_some_iff.1 hparameters
        obtain ⟨hgroup, -⟩ := forestTokens_eq_group_iff.2 ⟨trees, tree :: body, rfl, hps, rfl⟩
        obtain ⟨htokens, hx⟩ := forestTokens_eq_identifier_iff.2 ⟨name, _, rfl, hname, hgroup⟩
        obtain ⟨u, us, hbody⟩ := exists_forestTokens_cons tree body
        refine ⟨rfl, x, ps, _, es, htokens, hx, hidentifiers, by simp [hbody], ?_, rfl⟩
        exact (ih (tree :: body) (by simp; omega) es).2 hes
    · cases h

end Forests

/-- The tokens of a forest conform to the grammar as what the forest is read as. -/
theorem readAlike (forest : List TokenTree) : ReadAlike F forest := by
  -- The bindings of a `let` and the body of a `defun` are forests at several depths inside of
  -- the forest, so the induction is on the size.
  induction hsize : sizeOf forest using Nat.strongRecOn generalizing forest with
  | ind n ih =>
    subst hsize
    replace ih := fun trees h => ih (sizeOf trees) h trees rfl
    rcases forest with _ | ⟨w | words | trees, rest⟩
    · intro es
      rw [forestTokens, readForest, readsAll_nil_iff, Option.some.injEq, eq_comm]
    · have ihrest := fun trees (h : sizeOf trees < sizeOf rest) => ih trees (by simp; omega)
      exact (ih rest (by simp)).word_cons (takes_letIn_iff ihrest) (takes_defun_iff ihrest)
    · exact (ih rest (by simp)).text_cons
    · exact (ih trees (by simp; omega)).group_cons (ih rest (by simp))

/-! ## Reading the tokens of a forest -/

theorem toOption_eq_some_iff {ε α : Type} {r : Except ε α} {a : α} :
    r.toOption = some a ↔ r = .ok a := by
  cases r <;> simp [Except.toOption]

/-- The tokens of a forest are read as the forest is, unless the budget for the nesting depth
    is exhausted, which takes as many tokens as it has units. Tokens without quotation marks
    whose parentheses do not match are refused, in so far as no limit was exceeded before. -/
theorem readSequence_eq_readForest (F : List String) (hF : ")" ∉ F) :
    (∀ forest depth,
      (readSequence F depth (forestTokens forest)).toOption = readForest F forest ∨
        readSequence F depth (forestTokens forest) = .error .tooDeep ∧
          depth ≤ (forestTokens forest).length) ∧
    ∀ ts, "\"" ∉ ts → balanced ts = false → ∀ depth,
      ∃ cause, readSequence F depth ts = .error cause ∧ cause.Justified depth ts := by
  refine ⟨fun forest depth => ?_, fun ts hquote hbalanced depth => ?_⟩
  · by_cases hdeep : readSequence F depth (forestTokens forest) = .error .tooDeep
    · exact .inr ⟨hdeep, failsOnly_readSequence depth _ _ hdeep⟩
    · left
      ext es
      rw [toOption_eq_some_iff, readSequence_eq_ok_iff hdeep, readAlike]
  · cases hread : readSequence F depth ts with
    | error cause => exact ⟨cause, rfl, failsOnly_readSequence depth ts cause hread⟩
    | ok es =>
      have htrue := balanced_of_nested ((readsAll_of_readSequence hread).nested hF) hquote
      rw [hbalanced] at htrue
      cases htrue

/-- A binding in the bindings of a `let`, whose body is a call with a quotation, and a
    parenthesis too many. -/
theorem readSequence_eq_readForest_letIn :
    let forest : List TokenTree :=
      [.group [.word (.mk "let"),
          .group [.group [.word (.mk "x"), .word (.mk "car"), .word (.mk "y")]],
          .word (.mk "f"), .word (.mk "x"), .text [.mk "a", .mk "b"]],
        .word (.mk "7")]
    let es : List Expr :=
      [.letIn [("x", .part .car (.var "y"))] [.call "f" [.var "x", .str "a b"]], .int 7]
    (forestTokens forest = ["(", "let", "(", "(", "x", "car", "y", ")", ")", "f", "x",
        "\"", "a", "b", "\"", ")", "7"] ∧
      readForest ["f"] forest = some es ∧
      (readSequence ["f"] 20 (forestTokens forest)).toOption = some es) ∧
    balanced ["(", "f", ")", ")"] = false ∧
      ∃ cause, readSequence ["f"] 20 ["(", "f", ")", ")"] = .error cause ∧
        cause.Justified 20 ["(", "f", ")", ")"] := by
  intro forest es
  have hF : ")" ∉ ["f"] := by decide
  have htokens : forestTokens forest = ["(", "let", "(", "(", "x", "car", "y", ")", ")", "f", "x",
      "\"", "a", "b", "\"", ")", "7"] := by
    rfl
  have hforest : readForest ["f"] forest = some es := by
    unfold forest es
    cbv
  refine ⟨⟨htokens, hforest, ?_⟩, by decide, ?_⟩
  · rw [← hforest]
    refine ((readSequence_eq_readForest ["f"] hF).1 forest 20).resolve_right fun h => ?_
    rw [htokens] at h
    exact absurd h.2 (by decide)
  · exact (readSequence_eq_readForest ["f"] hF).2 _ (by decide) (by decide) 20

end LazyLisp
