import LazyLisp.Proofs.Reading.Budget
import LazyLisp.Proofs.Reading.Failure

/-!
# Progress

Reading comes to its end on every list of tokens, however malformed it is. An expression
takes at least one token and leaves over a tail of the others (`readExpr_suffix`). So to read
expression after expression, each from what the one before left over, ends as well: where no
tokens are left, or at the first expression that cannot be read (`readItems_ends`).

What is nested in an expression has fewer tokens than the expression. So readings nest no
deeper than there are tokens, and once more for a part of a list that is missing its target: a
budget of one unit more than there are tokens is enough, and any greater one makes no
difference (`readExpr_progress`).
-/

namespace LazyLisp

/-! ## Repetition -/

/-- Items one after the other, each read from the tokens that the one before left over: the
    tokens at the start, the items, and the tokens that are left over after the last. -/
inductive Passes {α : Type} (one : List Token → Except ReadError (α × List Token)) :
    List Token → List α → List Token → Prop
  | done (ts : List Token) : Passes one ts [] ts
  | next {t : Token} {ts left rest : List Token} {item : α} {items : List α} :
    one (t :: ts) = .ok (item, left) → Passes one left items rest →
    Passes one (t :: ts) (item :: items) rest

/-- If every item takes a token, then the reading of items ends: with nothing left over, or
    with an item that cannot be read, and then for its cause. -/
theorem readItems_ends {α : Type} {one : List Token → Except ReadError (α × List Token)}
    (hrest : ∀ {t ts item rest}, one (t :: ts) = .ok (item, rest) → rest <:+ ts) {fuel : Nat}
    {ts : List Token} (hfuel : ts.length ≤ fuel) :
    (∃ items, Passes one ts items [] ∧ readItems one fuel ts = .ok items) ∨
      ∃ items rest cause, Passes one ts items rest ∧ rest ≠ [] ∧ one rest = .error cause ∧
        readItems one fuel ts = .error cause := by
  fun_induction readItems one fuel ts with
  | case1 => exact .inl ⟨[], .done [], rfl⟩
  | case2 => simp at hfuel
  | case3 fuel t ts ih =>
    cases hone : one (t :: ts) with
    | error cause => exact .inr ⟨[], t :: ts, cause, .done _, List.cons_ne_nil _ _, hone, rfl⟩
    | ok next =>
      obtain ⟨item, left⟩ := next
      have hleft : left.length ≤ fuel :=
        (hrest hone).length_le.trans (Nat.le_of_succ_le_succ hfuel)
      -- The items after the first end in one of the two ways, and all items in the same.
      rcases ih left hleft with ⟨items, hitems, heq⟩ | ⟨items, rest, cause, hitems, hne, heq⟩
      · refine .inl ⟨item :: items, .next hone hitems, ?_⟩
        simp only [ok_bind, heq]
        rfl
      · refine .inr ⟨item :: items, rest, cause, .next hone hitems, hne, heq.1, ?_⟩
        simp only [ok_bind, heq.2]
        rfl

/-! ## Expressions -/

/-- With a budget of more units than there are tokens, the reading does not exhaust it, and is
    the same as with one unit more than there are tokens. -/
theorem budget_suffices {α : Type} {read : Nat → List Token → Except ReadError α}
    {ts : List Token}
    (hfails : ∀ depth, FailsOnly (ReadError.Justified depth ts) (read depth ts))
    (hdeepens : ∀ {depth depth'}, depth ≤ depth' → Deepens (read depth ts) (read depth' ts))
    {depth : Nat} (hdepth : ts.length < depth) :
    read depth ts ≠ .error .tooDeep ∧ read depth ts = read (ts.length + 1) ts := by
  have hne {depth : Nat} (hdepth : ts.length < depth) : read depth ts ≠ .error .tooDeep := by
    intro h
    exact absurd (hfails depth _ h) (Nat.not_le.2 hdepth)
  exact ⟨hne hdepth, hdeepens hdepth (hne (Nat.lt_succ_self _))⟩

/-- Reading makes progress, whatever the tokens and the names of the functions are. An
    expression that is read from some tokens leaves over a shorter tail of them. A sequence of
    expressions is read to its end, after which nothing is left over, or to the first that
    cannot be read. And no reading nests deeper than there are tokens and one: a budget of so
    many units is never exhausted, and any greater one leads to the same result. -/
theorem readExpr_progress (F : List String) (ts : List Token) :
    (∀ depth e rest, ts ≠ [] → readExpr F depth ts = .ok (e, rest) →
        rest <:+ ts ∧ rest.length < ts.length) ∧
      (∀ depth,
        (∃ es, Passes (readExpr F depth) ts es [] ∧ readSequence F depth ts = .ok es) ∨
          ∃ es rest cause, Passes (readExpr F depth) ts es rest ∧ rest ≠ [] ∧
            readExpr F depth rest = .error cause ∧ readSequence F depth ts = .error cause) ∧
      ∀ depth, ts.length < depth →
        (readExpr F depth ts ≠ .error .tooDeep ∧
          readExpr F depth ts = readExpr F (ts.length + 1) ts) ∧
        (readSequence F depth ts ≠ .error .tooDeep ∧
          readSequence F depth ts = readSequence F (ts.length + 1) ts) := by
  refine ⟨?_, fun depth => readItems_ends readExpr_suffix (Nat.le_refl _), ?_⟩
  · intro depth e rest hts h
    obtain ⟨t, us, rfl⟩ := List.exists_cons_of_ne_nil hts
    have hsuffix : rest <:+ us := readExpr_suffix h
    exact ⟨hsuffix.trans (List.suffix_cons t us), Nat.lt_succ_of_le hsuffix.length_le⟩
  · intro depth hdepth
    constructor
    · exact budget_suffices (failsOnly_readExpr · ts) (readExpr_deepens · ts) hdepth
    · exact budget_suffices (failsOnly_readSequence · ts) (readSequence_deepens · ts) hdepth

/-- Parts of lists without a target, which nest as deep as possible, before a group that is
    never closed: a unit less than there are tokens, and one, is not enough. -/
theorem readExpr_progress_missingTarget :
    let parts := ["car", "cdr", "car"]
    let ts := "(" :: "cdr" :: ")" :: "(" :: parts
    (readExpr [] 3 ts = .ok (.part .cdr .empty, "(" :: parts) ∧ ts ≠ [] ∧ parts.length < 4) ∧
      ("(" :: parts <:+ ts ∧ ("(" :: parts).length < ts.length) ∧
      (∃ es rest cause, Passes (readExpr [] 3) ts es rest ∧ rest ≠ [] ∧
        readExpr [] 3 rest = .error cause ∧ readSequence [] 3 ts = .error cause) ∧
      readExpr [] 4 parts ≠ .error .tooDeep ∧ readExpr [] 3 parts = .error .tooDeep := by
  intro parts ts
  have hread : readExpr [] 3 ts = .ok (.part .cdr .empty, "(" :: parts) := by
    unfold ts parts
    cbv
  have hsequence : readSequence [] 3 ts = .error (.parse .unmatchedParen) := by
    unfold ts parts
    cbv
  have hends := (readExpr_progress [] ts).2.1 3
  rw [hsequence] at hends
  refine ⟨⟨hread, List.cons_ne_nil _ _, by decide⟩, ?_, ?_, ?_, ?_⟩
  · exact (readExpr_progress [] ts).1 3 _ _ (List.cons_ne_nil _ _) hread
  · rw [hsequence]
    exact hends.resolve_left (by simp)
  · exact ((readExpr_progress [] parts).2.2 4 (by decide)).1.1
  · unfold parts
    cbv

end LazyLisp
