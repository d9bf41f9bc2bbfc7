import Mathlib

/-!
# Marks at the end of a list

Two scans take what they go through in pairs, from left to right: in the search for declared
names a `defun` takes the token behind it, and in the expansion of escapes a backslash takes
the character behind it. What is taken may be such a mark itself, and then it takes nothing.
So whether a mark is free at the end of a list depends on how many of them stand there, one
behind the other (`trailing`), and only on whether this number is even or odd.

* `trailing_append_of_ne`: what stands before anything other than a mark does not count;
* `even_trailing_cons_cons`: neither does a pair that is taken at the front, whatever it is
  that the mark takes.
-/

namespace LazyLisp

section Trailing

variable {α : Type*} [DecidableEq α]

/-- How many `x` the list ends with. -/
def trailing (x : α) (l : List α) : Nat := (l.rtakeWhile (· = x)).length

variable {x y : α}

@[simp]
theorem trailing_nil : trailing x [] = 0 := rfl

@[simp]
theorem trailing_concat (l : List α) :
    trailing x (l ++ [y]) = if y = x then trailing x l + 1 else 0 := by
  by_cases h : y = x <;> simp [trailing, h]

theorem trailing_singleton : trailing x [y] = if y = x then 1 else 0 :=
  trailing_concat []

theorem trailing_append_of_ne (h : y ≠ x) (l r : List α) :
    trailing x (l ++ y :: r) = trailing x r := by
  induction r using List.reverseRecOn with
  | nil => rw [trailing_concat, if_neg h, trailing_nil]
  | append_singleton r z ih =>
    rw [← List.cons_append, ← List.append_assoc, trailing_concat, trailing_concat, ih]

theorem trailing_cons_of_ne (h : y ≠ x) (l : List α) : trailing x (y :: l) = trailing x l :=
  trailing_append_of_ne h [] l

theorem trailing_cons_cons_of_ne (h : y ≠ x) (z : α) (l : List α) :
    trailing x (z :: y :: l) = trailing x (y :: l) :=
  (trailing_append_of_ne h [z] l).trans (trailing_cons_of_ne h l).symm

theorem even_trailing_cons_cons (l : List α) :
    Even (trailing x (x :: y :: l)) ↔ Even (trailing x l) := by
  induction l using List.reverseRecOn with
  | nil =>
    rw [← List.singleton_append, trailing_concat, trailing_singleton, if_pos rfl, trailing_nil]
    split <;> decide
  | append_singleton l z ih =>
    rw [← List.cons_append, ← List.cons_append, trailing_concat, trailing_concat]
    by_cases h : z = x
    · rw [if_pos h, if_pos h, Nat.even_add_one, Nat.even_add_one, ih]
    · rw [if_neg h, if_neg h]

/-- The last of an odd number of marks is free: those before it go in pairs. -/
theorem exists_eq_concat_of_odd_trailing {l : List α} (h : Odd (trailing x l)) :
    ∃ r, l = r ++ [x] ∧ Even (trailing x r) := by
  induction l using List.reverseRecOn with
  | nil => simp at h
  | append_singleton r y _ =>
    rw [trailing_concat] at h
    split at h
    · next hy => exact ⟨r, by rw [hy], by simpa [Nat.odd_add_one] using h⟩
    · simp at h

end Trailing

end LazyLisp
