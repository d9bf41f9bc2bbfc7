import LazyLisp.Proofs.Reading.Grammar

/-!
# Why reading fails

A list of tokens that cannot be read is at fault itself, unless a limit comes in its way:
the digit limit, and then one of the tokens is a numeral that exceeds it, or the budget for
the nesting depth, and then there are at least as many tokens as the budget has units
(`failsOnly_readExpr`). So a budget that is greater than the number of the tokens is never
exhausted, however malformed they are.

As in the proof that what is read conforms to the grammar, the readers of the single forms
are looked at one by one, given what is known of the reader for nested expressions.
-/

namespace LazyLisp

/-- What a failure tells about the budget and the tokens that could not be read with it. -/
def ReadError.Justified (depth : Nat) (tokens : List Token) : ReadError → Prop
  | .parse _ => True
  | .digits limit => ∃ t ∈ tokens, readNumeral t = .error limit
  | .tooDeep => depth ≤ tokens.length

/-- The result is a failure only for a cause of this kind. -/
def FailsOnly {α : Type} (P : ReadError → Prop) (r : Except ReadError α) : Prop :=
  ∀ cause, r = .error cause → P cause

section FailsOnly

variable {α β : Type} {P Q : ReadError → Prop}

theorem failsOnly_ok (a : α) : FailsOnly P (.ok a) := by
  intro cause h
  cases h

theorem failsOnly_error {cause : ReadError} (h : P cause) :
    FailsOnly P (.error cause : Except ReadError α) := by
  intro cause' heq
  cases heq
  exact h

theorem FailsOnly.imp {r : Except ReadError α} (h : FailsOnly P r)
    (hPQ : ∀ cause, P cause → Q cause) : FailsOnly Q r :=
  fun cause heq => hPQ cause (h cause heq)

theorem FailsOnly.bind {r : Except ReadError α} {f : α → Except ReadError β} (hr : FailsOnly P r)
    (hf : ∀ a, r = .ok a → FailsOnly P (f a)) : FailsOnly P (r >>= f) := by
  cases r with
  | error cause => exact failsOnly_error (hr cause rfl)
  | ok a => exact hf a rfl

end FailsOnly

section Justified

variable {α : Type} {depth : Nat} {ts us : List Token} {cause : ReadError}

/-- More tokens around those that cannot be read leave the failure justified. -/
theorem ReadError.Justified.sublist (h : cause.Justified depth ts) (hsub : ts.Sublist us) :
    cause.Justified depth us := by
  cases cause with
  | parse _ => trivial
  | digits limit =>
    obtain ⟨t, ht, hlimit⟩ := h
    exact ⟨t, hsub.subset ht, hlimit⟩
  | tooDeep => exact Nat.le_trans h hsub.length_le

/-- A token before those that cannot be read makes up for a unit of the budget. -/
theorem ReadError.Justified.cons (h : cause.Justified depth ts) (t : Token) :
    cause.Justified (depth + 1) (t :: ts) := by
  cases cause with
  | parse _ => trivial
  | digits limit =>
    obtain ⟨u, hu, hlimit⟩ := h
    exact ⟨u, List.mem_cons_of_mem t hu, hlimit⟩
  | tooDeep => exact Nat.succ_le_succ h

theorem failsOnly_parse (cause : ParseError) :
    FailsOnly (ReadError.Justified depth ts) (.error (.parse cause) : Except ReadError α) :=
  failsOnly_error trivial

theorem failsOnly_mapError_parse (r : Except ParseError α) :
    FailsOnly (ReadError.Justified depth ts) (r.mapError .parse) := by
  cases r with
  | error cause => exact failsOnly_parse cause
  | ok a => exact failsOnly_ok a

end Justified

/-! ## Repetition -/

/-- Items one after the other fail only as a single item does: they are read with as much
    fuel as there are tokens, and every item takes one. -/
theorem failsOnly_readItems {α : Type} {depth : Nat}
    {one : List Token → Except ReadError (α × List Token)}
    (hone : ∀ ts, FailsOnly (ReadError.Justified depth ts) (one ts))
    (hrest : ∀ {t ts a rest}, one (t :: ts) = .ok (a, rest) → rest <:+ ts)
    {fuel : Nat} {ts : List Token} (hfuel : ts.length ≤ fuel) :
    FailsOnly (ReadError.Justified depth ts) (readItems one fuel ts) := by
  fun_induction readItems one fuel ts with
  | case1 => exact failsOnly_ok _
  | case2 => simp at hfuel
  | case3 fuel t ts ih =>
    refine (hone (t :: ts)).bind ?_
    rintro ⟨a, rest⟩ ha
    have hsuffix := hrest ha
    have hlength := hsuffix.length_le
    rw [List.length_cons] at hfuel
    refine FailsOnly.bind ?_ fun as _ => failsOnly_ok (a :: as)
    exact (ih rest (by omega)).imp fun _ h => h.sublist (hsuffix.sublist.cons t)

/-! ## Forms -/

section Forms

variable {depth : Nat} {one : List Token → Except ReadError (Expr × List Token)}
  (hone : ∀ ts, FailsOnly (ReadError.Justified depth ts) (one ts))
  (hrest : ∀ {ts e rest}, one ts = .ok (e, rest) → rest <:+ ts.tail)

theorem matchParen_sublist {ts group rest : List Token}
    (h : (matchParen ts).mapError ReadError.parse = .ok (group, rest)) :
    group.Sublist ts ∧ rest <:+ ts.tail := by
  obtain ⟨rfl, -⟩ := matchParen_eq_ok_iff.1 (mapError_eq_ok h)
  refine ⟨((List.sublist_append_left group _).cons _), ?_⟩
  exact (List.suffix_cons _ _).trans (List.suffix_append _ _)

theorem readBindingGroup_suffix {ts rest : List Token} {b : String × Expr}
    (h : readBindingGroup one ts = .ok (b, rest)) : rest <:+ ts.tail := by
  unfold readBindingGroup at h
  split at h
  · obtain ⟨⟨group, rest'⟩, hgroup, h⟩ := bind_eq_ok h
    obtain ⟨b', -, h⟩ := bind_eq_ok h
    cases h
    exact (matchParen_sublist hgroup).2
  · cases h

include hone

theorem failsOnly_readWhole (ts : List Token) :
    FailsOnly (ReadError.Justified depth ts) (readWhole one ts) := by
  refine (hone ts).bind ?_
  rintro ⟨e, leftover⟩ -
  cases leftover with
  | nil => exact failsOnly_ok e
  | cons t ts => exact failsOnly_parse _

theorem failsOnly_readBinding (group : List Token) :
    FailsOnly (ReadError.Justified depth group) (readBinding one group) := by
  rcases group with _ | ⟨name, _ | ⟨t, ts⟩⟩
  · exact failsOnly_parse _
  · rw [readBinding]
    split <;> exact failsOnly_parse _
  · rw [readBinding]
    split
    · refine FailsOnly.bind ?_ fun e _ => failsOnly_ok (name, e)
      exact (failsOnly_readWhole hone (t :: ts)).imp fun _ h =>
        h.sublist (List.sublist_cons_self _ _)
    · exact failsOnly_parse _

theorem failsOnly_readBindingGroup (ts : List Token) :
    FailsOnly (ReadError.Justified depth ts) (readBindingGroup one ts) := by
  unfold readBindingGroup
  split
  · refine (failsOnly_mapError_parse _).bind ?_
    rintro ⟨group, rest⟩ hgroup
    refine FailsOnly.bind ?_ fun b _ => failsOnly_ok (b, rest)
    exact (failsOnly_readBinding hone group).imp fun _ h => h.sublist (matchParen_sublist hgroup).1
  · exact failsOnly_parse _

include hrest

theorem failsOnly_readAll (ts : List Token) :
    FailsOnly (ReadError.Justified depth ts) (readAll one ts) :=
  failsOnly_readItems hone (fun h => hrest h) (Nat.le_refl _)

theorem failsOnly_readLet (ts : List Token) :
    FailsOnly (ReadError.Justified depth ts) (readLet one ts) := by
  unfold readLet
  split
  · refine (failsOnly_mapError_parse _).bind ?_
    rintro ⟨group, body⟩ hgroup
    obtain ⟨hsub, hsuffix⟩ := matchParen_sublist hgroup
    refine FailsOnly.bind ?_ fun bs _ => FailsOnly.bind ?_ fun es _ => failsOnly_ok _
    · have hbindings := failsOnly_readItems (failsOnly_readBindingGroup hone)
        (fun h => readBindingGroup_suffix h) (Nat.le_refl group.length)
      exact hbindings.imp fun _ h => h.sublist hsub
    · have hbody := (hsuffix.trans (List.tail_suffix ts)).sublist
      exact (failsOnly_readAll hone hrest body).imp fun _ h => h.sublist hbody
  · exact failsOnly_parse _

theorem failsOnly_readIf (ts : List Token) :
    FailsOnly (ReadError.Justified depth ts) (readIf one ts) := by
  refine (failsOnly_readAll hone hrest ts).bind fun es _ => ?_
  split
  · exact failsOnly_ok _
  · exact failsOnly_parse _

theorem failsOnly_readDefun (ts : List Token) :
    FailsOnly (ReadError.Justified depth ts) (readDefun one ts) := by
  cases ts with
  | nil => exact failsOnly_parse _
  | cons name ts =>
    rw [readDefun]
    split
    · split
      · refine (failsOnly_mapError_parse _).bind ?_
        rintro ⟨parameters, body⟩ hgroup
        have hbody := ((matchParen_sublist hgroup).2.trans (List.tail_suffix ts)).sublist
        dsimp only
        split
        · exact failsOnly_parse _
        · cases body with
          | nil => exact failsOnly_parse _
          | cons t us =>
            refine FailsOnly.bind ?_ fun es _ => failsOnly_ok _
            exact (failsOnly_readAll hone hrest (t :: us)).imp fun _ h =>
              h.sublist (hbody.cons name)
      · exact failsOnly_parse _
    · exact failsOnly_parse _

theorem failsOnly_readForm (keyword : Keyword) (ts : List Token) :
    FailsOnly (ReadError.Justified depth ts) (readForm one keyword ts) := by
  cases keyword with
  | apply op | list => exact (failsOnly_readAll hone hrest ts).bind fun es _ => failsOnly_ok _
  | part which => exact (hone ts).bind fun _ _ => failsOnly_ok _
  | letIn => exact (failsOnly_readLet hone hrest ts).bind fun e _ => failsOnly_ok _
  | ite => exact (failsOnly_readIf hone hrest ts).bind fun e _ => failsOnly_ok _
  | defun => exact (failsOnly_readDefun hone hrest ts).bind fun e _ => failsOnly_ok _

end Forms

/-! ## Expressions -/

section Expressions

variable {F : List String}

theorem readExpr_suffix {depth : Nat} {ts rest : List Token} {e : Expr}
    (h : readExpr F depth ts = .ok (e, rest)) : rest <:+ ts.tail :=
  (reads_of_readExpr h).suffix

/-- Reading an expression fails only for a cause that the tokens and the budget justify. -/
theorem failsOnly_readExpr (depth : Nat) (ts : List Token) :
    FailsOnly (ReadError.Justified depth ts) (readExpr F depth ts) := by
  induction depth generalizing ts with
  | zero => exact failsOnly_error (Nat.zero_le _)
  | succ depth ih =>
    cases ts with
    | nil => exact failsOnly_ok _
    | cons head rest =>
      rw [readExpr]
      split
      · refine (failsOnly_mapError_parse _).bind ?_
        rintro ⟨group, remaining⟩ hgroup
        obtain ⟨heq, -⟩ := matchParen_eq_ok_iff.1 (mapError_eq_ok hgroup)
        have hsub : group.Sublist rest := by
          rw [List.tail_eq_of_cons_eq heq]
          exact List.sublist_append_left _ _
        refine FailsOnly.bind ?_ fun e _ => failsOnly_ok _
        exact (failsOnly_readWhole ih group).imp fun _ h => (h.sublist hsub).cons head
      · exact (failsOnly_mapError_parse _).bind fun _ _ => failsOnly_ok _
      · next keyword _ =>
        exact (failsOnly_readForm ih readExpr_suffix keyword rest).imp fun _ h => h.cons head
      · exact failsOnly_ok _
      · refine FailsOnly.bind ?_ fun es _ => failsOnly_ok _
        exact (failsOnly_readAll ih readExpr_suffix rest).imp fun _ h => h.cons head
      · refine FailsOnly.bind (fun cause hcause => ?_) fun n _ => failsOnly_ok _
        cases hn : readNumeral head with
        | error limit =>
          rw [hn] at hcause
          cases hcause
          exact ⟨head, List.mem_cons_self, hn⟩
        | ok n =>
          rw [hn] at hcause
          cases hcause
      · exact failsOnly_ok _
      · exact failsOnly_parse _

/-- Reading a sequence of expressions fails only for a cause that the tokens and the budget
    justify. -/
theorem failsOnly_readSequence (depth : Nat) (ts : List Token) :
    FailsOnly (ReadError.Justified depth ts) (readSequence F depth ts) :=
  failsOnly_readAll (failsOnly_readExpr depth) readExpr_suffix ts

end Expressions

end LazyLisp
