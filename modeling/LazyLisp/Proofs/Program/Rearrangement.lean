import LazyLisp.Proofs.Program.Definitions
import LazyLisp.Proofs.Reading.Groups

/-!
# Rearranging programs

Definitions may stand anywhere in a program, before or after the expressions that use
them. If the groups that a program is made of are put in another order, in which the
expressions to be evaluated follow each other as before, and so do the definitions of
each name, then the program is read as the same trees in that order, and has the same
values (`readProgram_and_values_of_rearrangement`).

The order is one of groups together with the trees they are read as, as it is the tree
that says whether a group is a definition, and of which name.
-/

namespace LazyLisp

/-- The expression is a definition of the name. -/
def Expr.defines (f : String) (e : Expr) : Bool := e.definition?.any (·.name = f)

/-- The same groups in another order, each with the tree it is read as: the order of the
    expressions to be evaluated is kept, and so is the order of the definitions of each
    name. -/
structure Rearrangement (parts parts' : List (List Token × Expr)) : Prop where
  perm : parts.Perm parts'
  expressions : parts.filter (·.2.definition?.isNone) = parts'.filter (·.2.definition?.isNone)
  definitions : ∀ f, parts.filter (·.2.defines f) = parts'.filter (·.2.defines f)

/-! ## Values -/

section Values

theorem filter_filterMap_definition? (f : String) (es : List Expr) :
    (es.filterMap Expr.definition?).filter (·.name = f) =
      (es.filter (·.defines f)).filterMap Expr.definition? := by
  induction es with
  | nil => rfl
  | cons e es ih =>
    rcases hd : e.definition? with _ | d
    · simp [Expr.defines, hd, ih]
    · by_cases hf : d.name = f <;> simp [Expr.defines, hd, hf, ih]

theorem Rearrangement.values_eq {parts parts' : List (List Token × Expr)}
    (h : Rearrangement parts parts') (limit : Nat) :
    (Execution.ofProgram (parts.map Prod.snd) limit).values =
      (Execution.ofProgram (parts'.map Prod.snd) limit).values := by
  refine Execution.values_ofProgram_congr ?_ (fun f => ?_) limit
  · simp only [Execution.body, List.filter_map]
    exact congrArg _ h.expressions
  · simp only [Execution.definitions, filter_filterMap_definition?, List.filter_map]
    exact congrArg _ (congrArg _ (h.definitions f))

end Values

/-! ## Reading -/

section Reading

theorem Rearrangement.readProgram {parts parts' : List (List Token × Expr)}
    (h : Rearrangement parts parts') (hgroups : ∀ part ∈ parts, IsGroup part.1) {depth : Nat}
    (hread : readProgram depth (parts.map Prod.fst).flatten = .ok (parts.map Prod.snd)) :
    readProgram depth (parts'.map Prod.fst).flatten = .ok (parts'.map Prod.snd) := by
  have hgroups' : ∀ part ∈ parts', IsGroup part.1 := fun part hpart =>
    hgroups part (h.perm.mem_iff.2 hpart)
  rw [readProgram_flatten_iff (List.forall_mem_map.2 hgroups), List.forall₂_map_left_iff,
    List.forall₂_map_right_iff, List.forall₂_same] at hread
  rw [readProgram_flatten_iff (List.forall_mem_map.2 hgroups'), List.forall₂_map_left_iff,
    List.forall₂_map_right_iff, List.forall₂_same]
  -- The names are declared in another order, which makes no difference to the reading.
  have hnames (f : String) : f ∈ declaredNames (parts'.map Prod.fst).flatten ↔
      f ∈ declaredNames (parts.map Prod.fst).flatten := by
    rw [mem_declaredNames_flatten (List.forall_mem_map.2 hgroups),
      mem_declaredNames_flatten (List.forall_mem_map.2 hgroups')]
    simp only [(h.perm.map Prod.fst).mem_iff]
  intro part hpart
  rw [readExpr_congr hnames]
  exact hread part (h.perm.mem_iff.2 hpart)

end Reading

/-- A program of groups that can be read has a tree for each group. However its groups are
    rearranged with their trees, the program can still be read, as the trees in the new
    order, and it has the same values, or stops in the same way, however deep evaluation may
    nest. -/
theorem readProgram_and_values_of_rearrangement {groups : List (List Token)}
    (hgroups : ∀ group ∈ groups, IsGroup group) {depth : Nat} {trees : List Expr}
    (hread : readProgram depth groups.flatten = .ok trees) :
    trees.length = groups.length ∧
      ∀ parts, Rearrangement (groups.zip trees) parts →
        readProgram depth (parts.map Prod.fst).flatten = .ok (parts.map Prod.snd) ∧
          ∀ limit, (Execution.ofProgram (parts.map Prod.snd) limit).values =
            (Execution.ofProgram trees limit).values := by
  have hlength : groups.length = trees.length :=
    ((readProgram_flatten_iff hgroups).1 hread).length_eq
  have hfst : (groups.zip trees).map Prod.fst = groups := List.map_fst_zip hlength.le
  have hsnd : (groups.zip trees).map Prod.snd = trees := List.map_snd_zip hlength.ge
  refine ⟨hlength.symm, fun parts h => ⟨h.readProgram ?_ ?_, fun limit => ?_⟩⟩
  · exact fun part hpart => hgroups part.1 (List.of_mem_zip hpart).1
  · rw [hfst, hsnd, hread]
  · rw [← h.values_eq, hsnd]

/-- A call that stands before the definitions, one of which takes the place of an earlier
    one. -/
theorem readProgram_and_values_of_rearrangement_redefined :
    let caller : List Token × Expr := (["(", "f", "3", ")"], .call "f" [.int 3])
    let first : List Token × Expr := (["(", "defun", "f", "(", "x", ")", "(", "g", "x", ")", ")"],
      .defun "f" ["x"] [.call "g" [.var "x"]])
    let second : List Token × Expr :=
      (["(", "defun", "f", "(", "x", ")", "(", "+", "x", "1", ")", ")"],
        .defun "f" ["x"] [.apply .add [.var "x", .int 1]])
    let other : List Token × Expr := (["(", "defun", "g", "(", "x", ")", "x", ")"],
      .defun "g" ["x"] [.var "x"])
    let last : List Token × Expr := (["(", "list", "(", "f", "1", ")", "(", "g", "2", ")", ")"],
      .list [.call "f" [.int 1], .call "g" [.int 2]])
    let groups := [caller.1, first.1, second.1, other.1, last.1]
    let trees := [caller.2, first.2, second.2, other.2, last.2]
    let parts := [first, caller, other, last, second]
    let values : List Expr := [.int 4, .list [.int 2, .int 2]]
    ((∀ group ∈ groups, IsGroup group) ∧ readProgram 9 groups.flatten = .ok trees ∧
        Rearrangement (groups.zip trees) parts) ∧
      readProgram 9 (parts.map Prod.fst).flatten = .ok (parts.map Prod.snd) ∧
      (Execution.ofProgram trees 9).values = .ok values ∧
      (Execution.ofProgram (parts.map Prod.snd) 9).values = .ok values := by
  intro caller first second other last groups trees parts values
  have hgroups : ∀ group ∈ groups, IsGroup group := by
    have hbalanced : ∀ group ∈ groups, group = "(" :: (group.tail.dropLast ++ [")"]) ∧
        balanced group.tail.dropLast = true := by decide
    exact fun group hgroup => ⟨_, hbalanced group hgroup⟩
  have hread : readProgram 9 groups.flatten = .ok trees := by
    unfold groups trees
    cbv
  have hrearranged : Rearrangement (groups.zip trees) parts := by
    refine ⟨?_, rfl, fun f => ?_⟩
    · exact .trans (.swap _ _ _) (.cons _ (.cons _ (.trans (.swap _ _ _) (.cons _ (.swap _ _ _)))))
    · -- The only definitions that change places are of different names.
      by_cases hf : "f" = f
      · subst hf
        rfl
      · simp [groups, trees, parts, caller, first, second, other, last, Expr.defines,
          Expr.definition?, List.filter_cons, hf]
  have hvalues : (Execution.ofProgram trees 9).values = .ok values := by
    unfold trees values
    cbv
  obtain ⟨hread', hvalues'⟩ :=
    (readProgram_and_values_of_rearrangement hgroups hread).2 parts hrearranged
  exact ⟨⟨hgroups, hread, hrearranged⟩, hread', hvalues, (hvalues' 9).trans hvalues⟩

end LazyLisp
