import LazyLisp.Proofs.Text.Trailing
import LazyLisp.Token.Declared

/-!
# Declared names, exactly

The search for declared names goes through the tokens one by one, but for an identifier that
a `defun` declares: it is skipped, and if it is a `defun` itself, it declares nothing. Thus
what is found at some place seems to depend on all that stands before it. It does not: a
token other than `defun` makes the search start anew, and so only the `defun` right before a
token count for it.

* `declaredNames_append`: tokens are searched part by part, if no declaration goes across
  the place where they are parted;
* `declaredNames_concat`: what one more token adds;
* `mem_declaredNames_iff`: declared are the identifiers behind an odd number of `defun`.
-/

namespace LazyLisp

variable {t n : Token} {ts us : List Token}

/-! ## Searching in parts -/

/-- A token that declares nothing adds nothing. -/
theorem declaredNames_cons (h : t ≠ "defun" ∨ ∀ u ∈ ts.head?, isIdentifier u = false) :
    declaredNames (t :: ts) = declaredNames ts := by
  cases ts with
  | nil => rfl
  | cons u ts =>
    rw [declaredNames, if_neg]
    rintro ⟨ht, hu⟩
    rcases h with hne | hnone
    · exact hne ht
    · simp [hnone u rfl] at hu

theorem declaredNames_declaration (h : isIdentifier n = true) :
    declaredNames ("defun" :: n :: ts) = n :: declaredNames ts := by
  rw [declaredNames, if_pos ⟨rfl, h⟩]

theorem declaredNames_append
    (h : Even (trailing "defun" ts) ∨ ∀ u ∈ us.head?, isIdentifier u = false) :
    declaredNames (ts ++ us) = declaredNames ts ++ declaredNames us := by
  fun_induction declaredNames ts with
  | case1 => rfl
  | case2 t =>
    refine declaredNames_cons (h.imp_left ?_)
    rintro heven rfl
    rw [trailing_singleton] at heven
    exact absurd heven (by decide)
  | case3 t u ts hdecl ih =>
    obtain ⟨rfl, hu⟩ := hdecl
    rw [even_trailing_cons_cons] at h
    rw [List.cons_append, List.cons_append, declaredNames_declaration hu, ih h, List.cons_append]
  | case4 t u ts hdecl ih =>
    have hskip : trailing "defun" (t :: u :: ts) = trailing "defun" (u :: ts) := by
      by_cases ht : t = "defun"
      · -- As `defun` is an identifier, it cannot be what `t` does not declare.
        have hu : u ≠ "defun" := by
          rintro rfl
          exact hdecl ⟨ht, by decide⟩
        exact trailing_cons_cons_of_ne hu t ts
      · exact trailing_cons_of_ne ht (u :: ts)
    rw [hskip] at h
    rw [List.cons_append, List.cons_append, declaredNames, if_neg hdecl]
    exact ih h

/-- What stands behind a token other than `defun` is searched as if it stood by itself,
    whether or not the token was taken for a name. -/
theorem declaredNames_subset_append (ht : t ≠ "defun") (ts rest : List Token) :
    declaredNames rest ⊆ declaredNames (ts ++ t :: rest) := by
  have hapart : Even (trailing "defun" (ts ++ [t])) := by simp [ht]
  rw [List.append_cons, declaredNames_append (.inl hapart)]
  exact List.subset_append_right _ _

/-! ## Runs of `defun` -/

/-- A token is declared by the last `defun` before it, if this is not declared itself. -/
theorem declaredNames_concat (ts : List Token) (t : Token) :
    declaredNames (ts ++ [t]) =
      declaredNames ts ++ if Odd (trailing "defun" ts) ∧ isIdentifier t = true then [t] else [] := by
  split
  · next h =>
    obtain ⟨us, rfl, hus⟩ := exists_eq_concat_of_odd_trailing h.1
    rw [List.append_assoc, declaredNames_append (.inl hus), declaredNames_append (.inl hus),
      List.singleton_append, declaredNames_declaration h.2]
    simp [declaredNames]
  · next h =>
    refine declaredNames_append ?_
    rw [not_and_or, Nat.not_odd_iff_even] at h
    simpa using h

/-- What the search finds, said without one: the identifiers behind an odd number of
    `defun`. -/
theorem mem_declaredNames_iff : n ∈ declaredNames ts ↔ isIdentifier n = true ∧
    ∃ before after, ts = before ++ n :: after ∧ Odd (trailing "defun" before) := by
  constructor
  · intro h
    induction ts using List.reverseRecOn with
    | nil => cases h
    | append_singleton ts t ih =>
      rw [declaredNames_concat, List.mem_append] at h
      rcases h with h | h
      · obtain ⟨hn, before, after, rfl, hodd⟩ := ih h
        exact ⟨hn, before, after ++ [t], by simp, hodd⟩
      · split at h
        · next hdecl =>
          obtain rfl := List.mem_singleton.1 h
          exact ⟨hdecl.2, ts, [], rfl, hdecl.1⟩
        · cases h
  · rintro ⟨hn, before, after, rfl, hodd⟩
    obtain ⟨us, rfl, hus⟩ := exists_eq_concat_of_odd_trailing hodd
    rw [List.append_assoc, declaredNames_append (.inl hus), List.singleton_append,
      declaredNames_declaration hn]
    exact List.mem_append_right _ List.mem_cons_self

theorem isIdentifier_of_mem_declaredNames (h : n ∈ declaredNames ts) : isIdentifier n = true :=
  (mem_declaredNames_iff.1 h).1

/-- Of two `defun` next to each other, the first declares the second, or is declared itself. -/
theorem defun_mem_declaredNames_iff :
    "defun" ∈ declaredNames ts ↔ ["defun", "defun"] <:+: ts := by
  rw [mem_declaredNames_iff]
  constructor
  · rintro ⟨-, before, after, rfl, hodd⟩
    obtain ⟨us, rfl, -⟩ := exists_eq_concat_of_odd_trailing hodd
    exact ⟨us, after, by simp⟩
  · rintro ⟨before, after, rfl⟩
    refine ⟨by decide, ?_⟩
    rcases Nat.even_or_odd (trailing "defun" before) with heven | hodd
    · exact ⟨before ++ ["defun"], after, by simp, by simpa using heven.add_one⟩
    · exact ⟨before, "defun" :: after, by simp, hodd⟩

/-- The declared names are the identifiers that stand somewhere right behind an odd number of
    `defun`, where all count that stand there one behind the other. And `defun` itself is one
    of them if and only if it stands twice in a row anywhere. -/
theorem declaredNames_exact (ts : List Token) :
    (∀ n, n ∈ declaredNames ts ↔ isIdentifier n = true ∧
        ∃ before after, ts = before ++ n :: after ∧ Odd (trailing "defun" before)) ∧
      ("defun" ∈ declaredNames ts ↔ ["defun", "defun"] <:+: ts) :=
  ⟨fun _ => mem_declaredNames_iff, defun_mem_declaredNames_iff⟩

/-- Three `defun` declare the second of them and what follows, two do not, and one at the end
    declares nothing. -/
example : declaredNames (tokenize "defun defun defun f (x) defun defun g defun") =
    ["defun", "f", "defun"] := by
  cbv

end LazyLisp
