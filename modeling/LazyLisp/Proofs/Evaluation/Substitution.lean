import LazyLisp.Proofs.Evaluation.Coincidence
import LazyLisp.Proofs.Evaluation.Depth
import LazyLisp.Proofs.Expr.Every
import LazyLisp.Proofs.Expr.Subst

/-!
# Substitution for a `let`

A `let` of one name has the outcome of its body with the bound expression in place of
the name (`evaluate_letIn_iff_subst`), unless a `let` in the body captures a free name
of this expression.

On the one side, a reference to the name is followed out of all the scopes that were
opened since, to where the `let` was; on the other, the expression itself is reduced
under these scopes. There its free names stand for the same, as none of the scopes
binds them. Apart from that both sides go the same way, though not with the same
expressions: what an inner `let` binds and what a call passes is substituted into as
well, while the body of a function, or of a `let` that binds the name again, is the
same on both sides, in scopes that bind what was substituted into (`Substituted`).

The reference takes a unit of depth that the expression in its place does not, and
the `let` takes another.

How an expression and its substitute take a step together does not depend on what is put in
place of the name, nor on the functions being the same on both sides (`inStep_subst`).
-/

namespace LazyLisp

open Scopes

/-! ## Steps of an expression and its substitute -/

section Steps

variable {functions functions' : FunctionTable} {R : Expr → Scopes → Expr → Scopes → Prop}
  {x : String} {e : Expr} {names : List String} {ρ ρ' : Scopes}

section Closure

/-! What is asked here of the relation is that it has an expression and its substitute on the
two sides wherever `At` says what `x` and `e` have to do with each other. This is kept by a
`let` on both sides, unless it binds `x` on the first or one of `names` on the second. -/

variable (At : Scopes → Scopes → Prop)
  (hsame : ∀ {b : Expr} {ρ ρ' : Scopes},
    (∀ y ∈ b.free, Lead R (ρ.resolve y) (ρ'.resolve y)) → R b ρ b ρ')
  (hsubst : ∀ {b : Expr} {ρ ρ' : Scopes}, b.every (Expr.spares names) = true → At ρ ρ' →
    (∀ y ∈ b.free, y ≠ x → Lead R (ρ.resolve y) (ρ'.resolve y)) → R b ρ (b.subst x e) ρ')
  (hletIn : ∀ {bs bs' : Scope} {ρ ρ' : Scopes}, At ρ ρ' → bs.lookup x = none →
    (∀ y ∈ names, bs'.lookup y = none) → At (plainScope bs :: ρ) (plainScope bs' :: ρ'))

include hsame hsubst hletIn

/-- Substitution in a `let`, whose bound expressions it goes into. -/
theorem inStep_subst_letIn {bs : Scope} {es : List Expr}
    (hb : (Expr.letIn bs es).every (Expr.spares names) = true) (hx : At ρ ρ')
    (h : ∀ y ∈ (Expr.letIn bs es).free, y ≠ x → Lead R (ρ.resolve y) (ρ'.resolve y)) :
    InStep functions functions' .equality R (.letIn bs es) ρ
      ((Expr.letIn bs es).subst x e) ρ' := by
  simp only [Expr.every, Expr.spares, Bool.and_eq_true, List.all_eq_true, decide_eq_true_eq,
    Expr.everyBound_iff, Expr.everyAll_iff] at hb
  obtain ⟨hspared, hbound, hbody⟩ := hb
  have hbs : List.Forall₂ (SameName (R · ρ · ρ')) bs (Expr.substBound bs x e) := by
    rw [Expr.substBound_eq_map, List.forall₂_map_right_iff, List.forall₂_same]
    intro b hb
    exact .intro (hsubst (hbound b hb) hx fun y hy => h y (Expr.free_subset_letIn hb es hy))
  rw [Expr.subst]
  split
  · next hmem =>
    -- The name is bound again, so that the body is not substituted into.
    refine inStep_letIn hsame hbs fun y hy hfree => ?_
    exact h y (Expr.mem_free_letIn hy hfree) fun hyx => hfree (hyx ▸ hmem)
  · next hmem =>
    -- Neither the name nor a name that is free in `e` is bound here.
    refine .letIn ?_
    rw [Expr.substAll_eq_map, List.forall₂_map_right_iff, List.forall₂_same]
    intro c hc
    refine hsubst (hbody c hc) ?_ fun y hy hne => ?_
    · refine hletIn hx (lookup_eq_none_iff_notMem.2 hmem) fun y hy => ?_
      have hy' : bs.lookup y = none := by
        rw [lookup_eq_none_iff_notMem, List.mem_map]
        rintro ⟨b, hb, rfl⟩
        exact hspared b hb hy
      rw [Expr.substBound_eq_map, lookup_map_snd, hy', Option.map_none]
    · refine .letIn hbs fun hfree => h y (Expr.mem_free_letIn ?_ hfree) hne
      exact Expr.free_subset_freeAll hc hy

/-- Substitution in any expression: it is a reference to the name, or both sides
    take the next step together, if they do so in calls. -/
theorem inStep_subst
    (hcall : ∀ {f : String} {arguments arguments' : List Expr},
      List.Forall₂ (R · ρ · ρ') arguments arguments' →
        InStep functions functions' .equality R (.call f arguments) ρ (.call f arguments') ρ')
    {b : Expr} (hb : b.every (Expr.spares names) = true) (hx : At ρ ρ')
    (h : ∀ y ∈ b.free, y ≠ x → Lead R (ρ.resolve y) (ρ'.resolve y)) :
    b = .var x ∨ InStep functions functions' .equality R b ρ (b.subst x e) ρ' := by
  have hsub {c : Expr} (hc : c.every (Expr.spares names) = true) (hfree : c.free ⊆ b.free) :
      R c ρ (c.subst x e) ρ' :=
    hsubst hc hx fun y hy => h y (hfree hy)
  have hall {es : List Expr} (hes : Expr.everyAll (Expr.spares names) es = true)
      (hfree : Expr.freeAll es ⊆ b.free) :
      List.Forall₂ (R · ρ · ρ') es (Expr.substAll es x e) := by
    rw [Expr.substAll_eq_map, List.forall₂_map_right_iff, List.forall₂_same]
    intro c hc
    exact hsub (Expr.everyAll_iff.1 hes c hc) fun y hy => hfree (Expr.free_subset_freeAll hc hy)
  cases b with
  | int _ | bool _ | str _ | defun _ _ _ | empty | deferred _ _ =>
    exact .inr (.settled fun _ => rfl)
  | var y =>
    by_cases hy : y = x
    · exact .inl (by rw [hy])
    · rw [Expr.subst, if_neg hy]
      exact .inr (inStep_var (h y (List.mem_singleton_self y) hy))
  | list es =>
    simp only [Expr.every, Bool.and_eq_true] at hb
    exact .inr (.list (hall hb.2 (List.Subset.refl _)))
  | part which c =>
    simp only [Expr.every, Bool.and_eq_true] at hb
    exact .inr (.part (hsub hb.2 (List.Subset.refl _)))
  | apply op es =>
    simp only [Expr.every, Bool.and_eq_true] at hb
    exact .inr (.apply (hall hb.2 (List.Subset.refl _)))
  | ite c t f =>
    simp only [Expr.every, Bool.and_eq_true] at hb
    refine .inr (.ite (hsub hb.2.1.1 ?_) (hsub hb.2.1.2 ?_) (hsub hb.2.2 ?_)) <;> simp [Expr.free]
  | letIn bs es => exact .inr (inStep_subst_letIn At hsame hsubst hletIn hb hx h)
  | call f es =>
    simp only [Expr.every, Bool.and_eq_true] at hb
    exact .inr (hcall (hall hb.2 (List.Subset.refl _)))

end Closure

end Steps

/-! ## The bound expression in place of its name -/

/-- What stands on the two sides, if `e` is put in place of `x`: one expression
    whose free names lead to what is on the two sides again, or an expression with
    its substitute, where `x` leads to `e` on the first side and `e` means the same on
    the second side as there. -/
inductive Substituted (x : String) (e : Expr) : Expr → Scopes → Expr → Scopes → Prop
  | same {b : Expr} {ρ ρ' : Scopes} :
    (∀ y ∈ b.free, Lead (Substituted x e) (ρ.resolve y) (ρ'.resolve y)) → Substituted x e b ρ b ρ'
  | subst {b : Expr} {ρ ρ' σ : Scopes} : b.every (Expr.spares e.free) = true →
    ρ.resolve x = some (e, σ) → CoincideOn e.free σ ρ' →
    (∀ y ∈ b.free, y ≠ x → Lead (Substituted x e) (ρ.resolve y) (ρ'.resolve y)) →
    Substituted x e b ρ (b.subst x e) ρ'

section Substituted

variable {functions : FunctionTable} {x : String} {e : Expr} {ρ ρ' σ : Scopes}

/-- A reference is within one unit of what it leads to. -/
theorem within_var (hx : ρ.resolve x = some (e, σ)) (he : CoincideOn e.free σ ρ') :
    Within 1 (reduce functions · (.var x) ρ) (reduce functions · e ρ') := by
  have hσ (depth : Nat) :
      reduce functions (depth + 1) (.var x) ρ = reduce functions depth e ρ' := by
    rw [reduce_var_of_some hx, reduce_eq_of_coincideOn he]
  intro depth depth' hle
  constructor
  · rcases depth with _ | depth
    · exact .inl rfl
    · simp only [hσ]
      exact reduce_mono (by omega) e ρ'
  · obtain ⟨depth', rfl⟩ : ∃ n, depth' = n + 1 := ⟨depth' - 1, by omega⟩
    simp only [hσ]
    exact reduce_mono (by omega) e ρ'

/-- A `let` that spares the free names of an expression does not change what they
    stand for. -/
theorem Scopes.CoincideOn.letIn_of_spared {names : List String} {bindings : Scope}
    (h : CoincideOn names σ ρ') (hspared : ∀ y ∈ names, bindings.lookup y = none) :
    CoincideOn names σ (plainScope bindings :: ρ') :=
  fun y hy => (h y hy).congr rfl (resolve_letIn_of_none (hspared y hy))

/-- The name leads to `e` on the first side, and `e` means the same on the second side as
    there. -/
def SubstitutedAt (x : String) (e : Expr) (ρ ρ' : Scopes) : Prop :=
  ∃ σ, ρ.resolve x = some (e, σ) ∧ CoincideOn e.free σ ρ'

theorem SubstitutedAt.substituted (hx : SubstitutedAt x e ρ ρ') {b : Expr}
    (hb : b.every (Expr.spares e.free) = true)
    (h : ∀ y ∈ b.free, y ≠ x → Lead (Substituted x e) (ρ.resolve y) (ρ'.resolve y)) :
    Substituted x e b ρ (b.subst x e) ρ' := by
  obtain ⟨σ, hx, he⟩ := hx
  exact .subst hb hx he h

theorem SubstitutedAt.letIn {bs bs' : Scope} (hx : SubstitutedAt x e ρ ρ')
    (hbs : bs.lookup x = none) (hbs' : ∀ y ∈ e.free, bs'.lookup y = none) :
    SubstitutedAt x e (plainScope bs :: ρ) (plainScope bs' :: ρ') := by
  obtain ⟨σ, hx, he⟩ := hx
  exact ⟨σ, (resolve_letIn_of_none hbs).trans hx, he.letIn_of_spared hbs'⟩

theorem Substituted.within {b b' : Expr} (h : Substituted x e b ρ b' ρ') :
    Within 1 (reduce functions · b ρ) (reduce functions · b' ρ') := by
  refine within_of_inStep (fun h => ?_) h
  cases h with
  | same h => exact .inr (inStep_same .same (inStep_call .same) h)
  | subst hb hx he h =>
    refine (inStep_subst (SubstitutedAt x e) .same (fun hb hx => hx.substituted hb)
      SubstitutedAt.letIn (inStep_call .same) hb ⟨_, hx, he⟩ h).imp_left ?_
    rintro rfl
    rw [Expr.subst, if_pos rfl]
    exact within_var hx he

/-- The body of a `let` of one name, and the same with the bound expression in
    place of the name. -/
theorem substituted_letIn {b : Expr} (hb : b.every (Expr.spares e.free) = true) (ρ : Scopes) :
    Substituted x e b (plainScope [(x, e)] :: ρ) (b.subst x e) ρ := by
  have hx : resolve x (plainScope [(x, e)] :: ρ) = some (e, ρ) := by
    rw [resolve_letIn, List.lookup_cons_self]
  refine .subst hb hx (fun y _ => .refl y ρ) fun y _ hne => ?_
  have hy : List.lookup y [(x, e)] = none := lookup_eq_none_iff_notMem.2 (by simpa using hne)
  rw [resolve_letIn, hy]
  exact .refl .same y ρ

end Substituted

/-! ## Plain expressions -/

theorem Expr.plain_subst {x : String} {e : Expr} (he : e.plain = true) (b : Expr)
    (hb : b.plain = true) : (b.subst x e).plain = true := by
  induction b with
  | int _ | bool _ | str _ | defun _ _ _ | empty | deferred _ _ => exact hb
  | var y =>
    rw [subst]
    split
    · exact he
    · exact hb
  | list es ih | apply o es ih | call f es ih =>
    simp only [plain, plainAll_iff] at hb
    simp only [subst, plain, plainAll_iff, substAll_eq_map, List.forall_mem_map]
    exact fun c hc => ih c hc (hb c hc)
  | part w c ih => exact ih hb
  | ite c t f ihc iht ihf =>
    simp only [plain, Bool.and_eq_true] at hb
    simp only [subst, plain, Bool.and_eq_true]
    exact ⟨⟨ihc hb.1.1, iht hb.1.2⟩, ihf hb.2⟩
  | letIn bs es ihbs ihes =>
    simp only [plain, Bool.and_eq_true, plainBindings_iff, plainAll_iff] at hb
    simp only [subst, plain, Bool.and_eq_true, plainBindings_iff, plainAll_iff, substAll_eq_map,
      substBound_eq_map, List.forall_mem_map]
    refine ⟨fun c hc => ihbs c hc (hb.1 c hc), ?_⟩
    split
    · exact hb.2
    · exact List.forall_mem_map.2 fun c hc => ihes c hc (hb.2 c hc)

/-! ## Evaluation -/

/-- If no `let` in `b` binds a free name of `e`, then the `let` of `x` to `e` around `b`
    ends as `b` with `e` in place of the free references to `x`: with the same value or
    with the same error, or neither of them ends. -/
theorem evaluate_letIn_iff_subst (functions : FunctionTable) (hfunctions : functions.plain = true)
    (x : String) {e b : Expr} (he : e.plain = true) (hb : b.plain = true)
    (hspares : b.every (Expr.spares e.free) = true) {s : Store} {l : Loc} {ρ : Scopes}
    (hl : s.Represents l ρ) (outcome : Except Stop Expr) :
    EndsWith (fun depth => (evaluate functions depth (.letIn [(x, e)] [b]) l s).1) outcome ↔
      EndsWith (fun depth => (evaluate functions depth (b.subst x e) l s).1) outcome := by
  have hletIn : (Expr.letIn [(x, e)] [b]).plain = true := by
    simp [Expr.plain, Expr.plainBindings, Expr.plainAll, he, hb]
  rw [evaluate_run_eq hfunctions hletIn hl,
    evaluate_run_eq hfunctions (Expr.plain_subst he b hb) hl]
  have hbody (depth : Nat) : reduce functions (depth + 1) (.letIn [(x, e)] [b]) ρ =
      reduce functions depth b (plainScope [(x, e)] :: ρ) := rfl
  exact (endsWith_succ hbody).trans (substituted_letIn hspares ρ).within.endsWith_iff

/-- The name is bound again by an inner `let`, to an expression that refers to it,
    and the free name of the bound expression is a deferred argument. -/
theorem evaluate_letIn_iff_subst_boundAgain :
    let functions : FunctionTable :=
      ⟨[("f", ⟨["z", "y"], [.apply .subtract [.var "z", .var "y"]]⟩)]⟩
    let e : Expr := .apply .add [.var "z", .int 1]
    let inner (bound : Expr) (argument : Expr) : Expr :=
      .letIn [("y", .call "f" [bound, .var "z"]), ("x", .apply .multiply [bound, .int 2])]
        [.call "f" [.var "x", argument]]
    let b : Expr := .list [.var "x", inner (.var "x") (.var "y")]
    let s : Store := ⟨#[[[("w", .int 4)]], [[("z", .deferred (.var "w") 0)], [("x", .empty)]]]⟩
    let ρ : Scopes := [[("z", .closure (.var "w") [[("w", .plain (.int 4))]])],
      [("x", .plain .empty)]]
    (functions.plain = true ∧ e.plain = true ∧ b.plain = true ∧
        b.every (Expr.spares e.free) = true ∧ s.Represents 1 ρ) ∧
      b.subst "x" e = .list [e, inner e (.var "y")] ∧
      EndsWith (fun depth => (evaluate functions depth (.letIn [("x", e)] [b]) 1 s).1)
        (.ok (.list [.int 5, .int 9])) ∧
      EndsWith (fun depth => (evaluate functions depth (b.subst "x" e) 1 s).1)
        (.ok (.list [.int 5, .int 9])) := by
  intro functions e inner b s ρ
  have hs : s.Represents 1 ρ := by
    refine ⟨by decide, .cons (.cons ?_ .nil) (.cons (.cons (.plain rfl) .nil) .nil)⟩
    exact .closure rfl (by decide) (.cons (.cons (.plain rfl) .nil) .nil)
  have hspares : b.every (Expr.spares e.free) = true := by decide +kernel
  have hvalue : (evaluate functions 20 (.letIn [("x", e)] [b]) 1 s).1 =
      .ok (.list [.int 5, .int 9]) := by
    unfold functions e b inner s
    cbv
  have hends : EndsWith (fun depth => (evaluate functions depth (.letIn [("x", e)] [b]) 1 s).1)
      (.ok (.list [.int 5, .int 9])) :=
    endsWith_evaluate rfl rfl hs hvalue (by simp)
  exact ⟨⟨rfl, rfl, rfl, hspares, hs⟩, rfl, hends,
    (evaluate_letIn_iff_subst functions rfl "x" rfl rfl hspares hs _).1 hends⟩

end LazyLisp
