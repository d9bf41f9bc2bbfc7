import LazyLisp.Proofs.Reading.Grammar

/-!
# The budget for the nesting depth

A reading that did not exhaust its budget, be it successful or not, ends the same with any
greater one (`readSequence_deepens`): the budget decides nothing but whether the reading
comes to its end. For each reader that takes the one for nested expressions as an argument,
it is said what follows if that one is replaced by another with a greater budget.

So a reading that comes to its end succeeds exactly on the tokens that conform to the
grammar (`readSequence_eq_ok_iff`).
-/

namespace LazyLisp

/-- The second result is one with a greater budget than the first: it is the same, unless the
    budget of the first was exhausted. -/
def Deepens {α : Type} (r r' : Except ReadError α) : Prop := r ≠ .error .tooDeep → r' = r

theorem Deepens.refl {α : Type} (r : Except ReadError α) : Deepens r r := fun _ => rfl

theorem Deepens.bind {α β : Type} {r r' : Except ReadError α} {f f' : α → Except ReadError β}
    (hr : Deepens r r') (hf : ∀ a, Deepens (f a) (f' a)) : Deepens (r >>= f) (r' >>= f') := by
  cases r with
  | error cause =>
    intro h
    rw [hr fun heq => h (by cases heq; rfl)]
    rfl
  | ok a =>
    rw [hr (by simp)]
    exact hf a

section Forms

/-- Items are read with more depth, and as many of them. -/
theorem readItems_deepens {α : Type} {one one' : List Token → Except ReadError (α × List Token)}
    (hone : ∀ ts, Deepens (one ts) (one' ts)) (fuel : Nat) (ts : List Token) :
    Deepens (readItems one fuel ts) (readItems one' fuel ts) := by
  fun_induction readItems one fuel ts with
  | case1 fuel =>
    cases fuel <;> exact .refl _
  | case2 => exact .refl _
  | case3 fuel t ts ih =>
    exact (hone (t :: ts)).bind fun next => (ih next.2).bind fun _ => .refl _

variable {one one' : List Token → Except ReadError (Expr × List Token)}
  (hone : ∀ ts, Deepens (one ts) (one' ts))

include hone

theorem readWhole_deepens (ts : List Token) : Deepens (readWhole one ts) (readWhole one' ts) :=
  (hone ts).bind fun _ => .refl _

theorem readBindingGroup_deepens (ts : List Token) :
    Deepens (readBindingGroup one ts) (readBindingGroup one' ts) := by
  unfold readBindingGroup
  split
  · refine (Deepens.refl _).bind fun _ => Deepens.bind ?_ fun _ => .refl _
    unfold readBinding
    split
    · exact .refl _
    · split
      · split
        · exact .refl _
        · exact (readWhole_deepens hone _).bind fun _ => .refl _
      · exact .refl _
  · exact .refl _

theorem readAll_deepens (ts : List Token) : Deepens (readAll one ts) (readAll one' ts) :=
  readItems_deepens hone ts.length ts

theorem readLet_deepens (ts : List Token) : Deepens (readLet one ts) (readLet one' ts) := by
  unfold readLet
  split
  · refine (Deepens.refl _).bind ?_
    rintro ⟨group, body⟩
    have hgroup := readItems_deepens (readBindingGroup_deepens hone) group.length group
    exact hgroup.bind fun _ => (readAll_deepens hone body).bind fun _ => .refl _
  · exact .refl _

theorem readDefun_deepens (ts : List Token) : Deepens (readDefun one ts) (readDefun one' ts) := by
  unfold readDefun
  split
  · exact .refl _
  split
  · split
    · refine (Deepens.refl _).bind ?_
      rintro ⟨parameters, body⟩
      dsimp only
      split
      · exact .refl _
      · split
        · exact .refl _
        · exact (readAll_deepens hone _).bind fun _ => .refl _
    · exact .refl _
  · exact .refl _

theorem readForm_deepens (keyword : Keyword) (ts : List Token) :
    Deepens (readForm one keyword ts) (readForm one' keyword ts) := by
  cases keyword with
  | apply op | list => exact (readAll_deepens hone ts).bind fun _ => .refl _
  | part which => exact (hone ts).bind fun _ => .refl _
  | letIn => exact (readLet_deepens hone ts).bind fun _ => .refl _
  | ite => exact ((readAll_deepens hone ts).bind fun _ => .refl _).bind fun _ => .refl _
  | defun => exact (readDefun_deepens hone ts).bind fun _ => .refl _

end Forms

variable {F : List String}

theorem readExpr_deepens {depth depth' : Nat} (hle : depth ≤ depth') (ts : List Token) :
    Deepens (readExpr F depth ts) (readExpr F depth' ts) := by
  induction depth generalizing depth' ts with
  | zero => exact fun h => absurd rfl h
  | succ depth ih =>
    obtain ⟨depth', rfl⟩ : ∃ n, depth' = n + 1 := ⟨depth' - 1, by omega⟩
    have hone := fun ts => ih (show depth ≤ depth' by omega) ts
    cases ts with
    | nil => exact .refl _
    | cons head rest =>
      rw [readExpr, readExpr]
      split
      · exact (Deepens.refl _).bind fun _ => (readWhole_deepens hone _).bind fun _ => .refl _
      · exact .refl _
      · exact readForm_deepens hone _ rest
      · exact .refl _
      · exact (readAll_deepens hone rest).bind fun _ => .refl _
      · exact .refl _
      · exact .refl _
      · exact .refl _

/-- A greater budget makes no difference to a reading that did not exhaust its own. -/
theorem readSequence_deepens {depth depth' : Nat} (hle : depth ≤ depth') (ts : List Token) :
    Deepens (readSequence F depth ts) (readSequence F depth' ts) :=
  readAll_deepens (readExpr_deepens hle) ts

/-- Unless the budget is exhausted, what is read is what conforms to the grammar. -/
theorem readSequence_eq_ok_iff {depth : Nat} {ts : List Token} {es : List Expr}
    (h : readSequence F depth ts ≠ .error .tooDeep) :
    readSequence F depth ts = .ok es ↔ ReadsAll F ts es := by
  constructor
  · exact readsAll_of_readSequence
  · intro hes
    rw [← readSequence_deepens (Nat.le_add_right depth (ts.length + 1)) ts h]
    exact hes.readAll _ (by omega)

end LazyLisp
