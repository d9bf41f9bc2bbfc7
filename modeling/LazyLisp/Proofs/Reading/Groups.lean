import LazyLisp.Proofs.Reading.DeclaredNames
import LazyLisp.Proofs.Reading.Grammar

/-!
# Programs made of groups

A program whose top-level forms all stand in parentheses is read group by group
(`readProgram_flatten_iff`). Each group is read for itself: neither what precedes it nor
what follows it makes a difference, but for the names that the program declares. These are
the names that its groups declare, as no declaration goes across the end of a group
(`mem_declaredNames_flatten`), and what counts of them for the reading is only which there
are (`readExpr_congr`).
-/

namespace LazyLisp

/-- The tokens are one group: an opening parenthesis, what is balanced, and the closing
    one. -/
def IsGroup (tokens : List Token) : Prop :=
  ∃ inner, tokens = "(" :: (inner ++ [")"]) ∧ balanced inner = true

/-! ## Declared names -/

section Declared

variable {group : List Token} {groups : List (List Token)}

/-- A closing parenthesis neither declares what follows it nor is declared. -/
theorem declaredNames_append_close (ts rest : List Token) :
    declaredNames (ts ++ ")" :: rest) = declaredNames ts ++ declaredNames rest := by
  have hname : ∀ u ∈ (")" :: rest).head?, isIdentifier u = false := by
    rintro _ ⟨⟩
    decide
  rw [declaredNames_append (.inr hname), declaredNames_cons (.inl (by decide))]

theorem IsGroup.declaredNames_append (h : IsGroup group) (rest : List Token) :
    declaredNames (group ++ rest) = declaredNames group ++ declaredNames rest := by
  obtain ⟨inner, rfl, -⟩ := h
  have hopen := declaredNames_append_close ("(" :: inner)
  simp only [List.cons_append, List.append_assoc, List.nil_append] at hopen ⊢
  rw [hopen rest, hopen [], declaredNames, List.append_nil]

/-- The names declared by groups one after the other. -/
theorem mem_declaredNames_flatten (h : ∀ group ∈ groups, IsGroup group) {f : String} :
    f ∈ declaredNames groups.flatten ↔ ∃ group ∈ groups, f ∈ declaredNames group := by
  induction groups with
  | nil => simp [declaredNames]
  | cons group groups ih =>
    rw [List.forall_mem_cons] at h
    rw [List.flatten_cons, h.1.declaredNames_append, List.mem_append, ih h.2,
      List.exists_mem_cons_iff]

end Declared

/-! ## Reading -/

section Reading

variable {F F' : List String}

theorem headOf_congr (h : ∀ f, f ∈ F ↔ f ∈ F') (t : Token) : Head.of F t = Head.of F' t := by
  simp only [Head.of, h]

/-- Reading depends on the set of the function names only. -/
theorem readExpr_congr (h : ∀ f, f ∈ F ↔ f ∈ F') (depth : Nat) :
    readExpr F depth = readExpr F' depth := by
  induction depth with
  | zero => rfl
  | succ depth ih =>
    funext ts
    cases ts with
    | nil => rfl
    | cons t ts => simp only [readExpr, headOf_congr h, ih]

variable {depth : Nat}

theorem readExpr_group {inner : List Token} (h : balanced inner = true) (rest : List Token) :
    readExpr F (depth + 1) ("(" :: (inner ++ ")" :: rest)) =
      (readWhole (readExpr F depth) inner).map (·, rest) := by
  have hhead : Head.of F "(" = .group := rfl
  simp only [readExpr, hhead, matchParen_group h, mapError_ok, ok_bind]
  cases readWhole (readExpr F depth) inner <;> rfl

/-- A group is read as it is by itself, and what follows it is left over. -/
theorem IsGroup.readExpr_append_iff {group : List Token} (h : IsGroup group)
    {rest rest' : List Token} {e : Expr} : readExpr F depth (group ++ rest) = .ok (e, rest') ↔
      readExpr F depth group = .ok (e, []) ∧ rest' = rest := by
  cases depth with
  | zero => simp [readExpr]
  | succ depth =>
    obtain ⟨inner, rfl, hinner⟩ := h
    simp only [List.cons_append, List.append_assoc, List.nil_append, readExpr_group hinner]
    cases readWhole (readExpr F depth) inner with
    | error cause => simp [Except.map]
    | ok e' => simp [Except.map, eq_comm]

theorem readItems_flatten_iff {groups : List (List Token)} (h : ∀ group ∈ groups, IsGroup group)
    {fuel : Nat} (hfuel : groups.flatten.length ≤ fuel) {es : List Expr} :
    readItems (readExpr F depth) fuel groups.flatten = .ok es ↔
      List.Forall₂ (fun group e => readExpr F depth group = .ok (e, [])) groups es := by
  induction groups generalizing fuel es with
  | nil => cases fuel <;> simp [readItems, eq_comm]
  | cons group groups ih =>
    rw [List.forall_mem_cons] at h
    obtain ⟨t, ts, rfl⟩ : ∃ t ts, group = t :: ts := by
      obtain ⟨inner, rfl, -⟩ := h.1
      exact ⟨_, _, rfl⟩
    simp only [List.flatten_cons, List.cons_append, List.length_cons, List.length_append] at hfuel ⊢
    obtain ⟨fuel, rfl⟩ : ∃ n, fuel = n + 1 := ⟨fuel - 1, by omega⟩
    have hfirst {e : Expr} {rest : List Token} :
        readExpr F depth (t :: (ts ++ groups.flatten)) = .ok (e, rest) ↔
          readExpr F depth (t :: ts) = .ok (e, []) ∧ rest = groups.flatten :=
      h.1.readExpr_append_iff
    have hrest {es : List Expr} := @ih h.2 fuel (by omega) es
    constructor
    · intro hread
      obtain ⟨⟨e, rest⟩, he, hread⟩ := bind_eq_ok hread
      obtain ⟨es, hes, hread⟩ := bind_eq_ok hread
      cases hread
      obtain ⟨hgroup, rfl⟩ := hfirst.1 he
      exact .cons hgroup (hrest.1 hes)
    · rintro (_ | ⟨he, hes⟩)
      simp only [readItems, hfirst.2 ⟨he, rfl⟩, ok_bind, hrest.2 hes]
      rfl

/-- A program made of groups is read if each of the groups can be read by itself, with the
    names that they all declare together. -/
theorem readProgram_flatten_iff {groups : List (List Token)}
    (h : ∀ group ∈ groups, IsGroup group) {es : List Expr} :
    readProgram depth groups.flatten = .ok es ↔
      List.Forall₂ (fun group e =>
        readExpr (declaredNames groups.flatten) depth group = .ok (e, [])) groups es :=
  readItems_flatten_iff h (Nat.le_refl _)

end Reading

end LazyLisp
