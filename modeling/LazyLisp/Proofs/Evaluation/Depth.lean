import LazyLisp.Proofs.Evaluation.Lockstep

/-!
# Nesting depth

What a budget for the nesting depth means for the outcome. More of it makes no
difference to a reduction that has ended (`reduce_mono`), so that every run has one
outcome in the long run (`EndsWith`): a value, an error, or want of depth whatever
the budget, if it does not end.

Two runs are *within* `k` of each other (`Within`) if each of them has the outcome of
the other as soon as its budget exceeds that of the other by `k`. Then they have the
same outcome in the long run, though they may differ in what they reduce on the way.
As in lockstep, it is enough to look at single steps (`within_of_inStep`): from
there the difference is not added up, as the two sides take every step together but
the last one.
-/

namespace LazyLisp

/-! ## More depth -/

/-- Outcomes of which the second is the same as the first, unless the first is
    want of depth. -/
def Comparison.extension : Comparison where
  Holds r r' := r = .error .tooDeep ∨ r = r'
  refl _ := .inr rfl
  bind := by
    rintro α β r r' f f' (rfl | rfl) hf
    · exact .inl rfl
    · rcases r with stop | a
      · exact .inr rfl
      · exact hf a

section Monotonicity

variable {functions : FunctionTable} {depth depth' : Nat}

/-- A greater budget makes no difference to a reduction that has ended. -/
theorem reduce_mono (h : depth ≤ depth') (e : Expr) (ρ : Scopes) :
    Comparison.extension.Holds (reduce functions depth e ρ) (reduce functions depth' e ρ) := by
  -- As in `Lockstep.holds`, the body of a call is two units further down.
  induction depth using Nat.strongRecOn generalizing depth' e ρ with
  | ind depth ih =>
    rcases depth with _ | depth
    · exact .inl rfl
    · obtain ⟨depth', rfl⟩ : ∃ n, depth' = n + 1 := ⟨depth' - 1, by omega⟩
      have ih' (f : Expr) (σ : Scopes) :=
        ih depth (Nat.lt_succ_self depth) (Nat.le_of_succ_le_succ h) f σ
      have hall (es : List Expr) (σ : Scopes) : List.Forall₂ (fun f f' =>
          Comparison.extension.Holds (reduce functions depth f σ) (reduce functions depth' f' σ))
          es es :=
        List.forall₂_same.2 fun f _ => ih' f σ
      cases e with
      | int _ | bool _ | str _ | defun _ _ _ | empty | deferred _ _ => exact .inr rfl
      | var x =>
        rw [reduce_var, reduce_var]
        split
        · exact .inr rfl
        · exact ih' _ _
      | list es => exact Comparison.bind _ (Comparison.reduceAll _ (hall es ρ)) fun _ => .inr rfl
      | part which e => exact Comparison.bind _ (ih' e ρ) fun _ => .inr rfl
      | apply op es =>
        exact Comparison.bind _ (Comparison.reduceAll _ (hall es ρ)) fun _ => .inr rfl
      | ite c t e =>
        refine Comparison.bind _ (ih' c ρ) fun v => ?_
        split
        · exact ih' t ρ
        · exact ih' e ρ
        · exact .inr rfl
      | letIn bindings body => exact Comparison.reduceBody _ (hall body _)
      | call f arguments =>
        rcases hf : functions.get? f with _ | function
        · rw [reduce_call_of_none hf, reduce_call_of_none hf]
          exact .inr rfl
        · by_cases harity : function.arity = arguments.length
          · rw [reduce_call hf harity, reduce_call hf harity]
            rcases depth with _ | depth
            · exact .inl rfl
            · obtain ⟨depth', rfl⟩ : ∃ n, depth' = n + 1 := ⟨depth' - 1, by omega⟩
              refine Comparison.reduceBody _ (List.forall₂_same.2 fun g _ => ?_)
              exact ih depth (by omega) (by omega) g _
          · rw [reduce_call_of_ne hf harity, reduce_call_of_ne hf harity]
            exact .inr rfl

end Monotonicity

/-! ## Outcomes in the long run -/

section Runs

variable {run run' : Nat → Except Stop Expr} {outcome : Except Stop Expr} {k : Nat}

/-- The run has this outcome with every sufficient budget. If the outcome is want
    of depth, then the run has no other: it does not end. -/
def EndsWith (run : Nat → Except Stop Expr) (outcome : Except Stop Expr) : Prop :=
  ∃ limit, ∀ depth ≥ limit, run depth = outcome

/-- Each of the runs has the outcome of the other with a budget that is greater
    by `k`. -/
def Within (k : Nat) (run run' : Nat → Except Stop Expr) : Prop :=
  ∀ depth depth', depth + k ≤ depth' →
    Comparison.extension.Holds (run depth) (run' depth') ∧
      Comparison.extension.Holds (run' depth) (run depth')

/-- A unit that a run takes before it goes on as another does not count. -/
theorem endsWith_succ (h : ∀ depth, run (depth + 1) = run' depth) :
    EndsWith run outcome ↔ EndsWith run' outcome := by
  constructor
  · rintro ⟨limit, hlimit⟩
    exact ⟨limit, fun depth hdepth => (h depth).symm.trans (hlimit (depth + 1) (by omega))⟩
  · rintro ⟨limit, hlimit⟩
    refine ⟨limit + 1, fun depth hdepth => ?_⟩
    obtain ⟨depth, rfl⟩ : ∃ n, depth = n + 1 := ⟨depth - 1, by omega⟩
    exact (h depth).trans (hlimit depth (by omega))

theorem Within.symm (h : Within k run run') : Within k run' run :=
  fun depth depth' hle => (h depth depth' hle).symm

theorem Within.endsWith (h : Within k run run') (hrun : EndsWith run outcome) :
    EndsWith run' outcome := by
  obtain ⟨limit, hlimit⟩ := hrun
  refine ⟨limit + k, fun depth hdepth => ?_⟩
  rcases (h limit depth hdepth).1 with hdeep | heq
  · -- Want of depth on the one side is want of depth on the other.
    have houtcome : outcome = .error .tooDeep := (hlimit limit (Nat.le_refl _)).symm.trans hdeep
    rcases (h depth (depth + k) (Nat.le_refl _)).2 with hdeep' | heq'
    · rw [hdeep', houtcome]
    · rw [heq', hlimit (depth + k) (by omega)]
  · rw [← heq, hlimit limit (Nat.le_refl _)]

/-- Runs within any difference of each other have the same outcome. -/
theorem Within.endsWith_iff (h : Within k run run') :
    EndsWith run outcome ↔ EndsWith run' outcome :=
  ⟨h.endsWith, h.symm.endsWith⟩

/-- A reduction that has ended has this outcome in the long run. -/
theorem endsWith_reduce {functions : FunctionTable} {depth : Nat} {e : Expr} {ρ : Scopes}
    (h : reduce functions depth e ρ = outcome) (hne : outcome ≠ .error .tooDeep) :
    EndsWith (reduce functions · e ρ) outcome := by
  refine ⟨depth, fun depth' hle => ?_⟩
  rcases reduce_mono hle e ρ with hdeep | heq
  · exact absurd (h.symm.trans hdeep) hne
  · exact heq.symm.trans h

/-- With any budget, a reduction has the outcome of the long run or does not get to
    it. -/
theorem EndsWith.eq_or_tooDeep {functions : FunctionTable} {e : Expr} {ρ : Scopes}
    (h : EndsWith (reduce functions · e ρ) outcome) (depth : Nat) :
    reduce functions depth e ρ = .error .tooDeep ∨ reduce functions depth e ρ = outcome := by
  obtain ⟨limit, hlimit⟩ := h
  rw [← hlimit (max depth limit) (Nat.le_max_right depth limit)]
  exact reduce_mono (Nat.le_max_left depth limit) e ρ

end Runs

section Evaluation

variable {functions : FunctionTable} {e : Expr} {s : Store} {l : Loc} {ρ : Scopes}

/-- The runs of an evaluation are those of the reduction in the scopes that its
    environment represents. -/
theorem evaluate_run_eq (hfunctions : functions.plain = true) (he : e.plain = true)
    (hl : s.Represents l ρ) :
    (fun depth => (evaluate functions depth e l s).1) = (reduce functions · e ρ) :=
  funext fun depth => agreesAt hfunctions depth he hl

/-- An evaluation that has ended has this outcome in the long run. -/
theorem endsWith_evaluate (hfunctions : functions.plain = true) (he : e.plain = true)
    (hl : s.Represents l ρ) {depth : Nat} {outcome : Except Stop Expr}
    (h : (evaluate functions depth e l s).1 = outcome) (hne : outcome ≠ .error .tooDeep) :
    EndsWith (fun depth => (evaluate functions depth e l s).1) outcome := by
  rw [evaluate_run_eq hfunctions he hl]
  exact endsWith_reduce ((agreesAt hfunctions depth he hl).symm.trans h) hne

end Evaluation

/-! ## Steps -/

section Steps

variable {functions functions' : FunctionTable} {R : Expr → Scopes → Expr → Scopes → Prop} {k : Nat}
  {e e' : Expr} {ρ ρ' : Scopes}

/-- One half of a step: what ends on the first side ends in the same way on the
    second, with a budget that is greater by `k`, if this is so of what the step
    goes on with. -/
theorem InStep.extension (h : InStep functions functions' .equality R e ρ e' ρ') {depth : Nat}
    (hR : ∀ n < depth, ∀ n', n + k ≤ n' → ∀ {e e' : Expr} {ρ ρ' : Scopes}, R e ρ e' ρ' →
      Comparison.extension.Holds (reduce functions n e ρ) (reduce functions' n' e' ρ'))
    {depth' : Nat} (hle : depth + k ≤ depth') :
    Comparison.extension.Holds (reduce functions depth e ρ) (reduce functions' depth' e' ρ') := by
  rcases depth with _ | depth
  · exact .inl rfl
  · obtain ⟨depth', rfl⟩ : ∃ n, depth' = n + 1 := ⟨depth' - 1, by omega⟩
    refine h.succ (fun hsettled => ?_) (hR depth (by omega) depth' (by omega)) ?_
    · have heq : reduce functions (depth + 1) e ρ = reduce functions' (depth + 1) e' ρ' :=
        hsettled depth
      rw [heq]
      exact reduce_mono (by omega) e' ρ'
    · intro es es' ρ ρ' hes
      rcases depth with _ | depth
      · exact .inl rfl
      · obtain ⟨depth', rfl⟩ : ∃ n, depth' = n + 1 := ⟨depth' - 1, by omega⟩
        refine Comparison.reduceBody _ (hes.imp fun _ _ => ?_)
        exact hR depth (by omega) depth' (by omega)

/-- A step does not add to the difference of what it goes on with. -/
theorem InStep.within (h : InStep functions functions' .equality R e ρ e' ρ')
    (hR : ∀ {e e' : Expr} {ρ ρ' : Scopes}, R e ρ e' ρ' →
      Within k (reduce functions · e ρ) (reduce functions' · e' ρ')) :
    Within k (reduce functions · e ρ) (reduce functions' · e' ρ') := by
  intro depth depth' hle
  constructor
  · exact h.extension (fun n _ n' hn _ _ _ _ hrelated => (hR hrelated n n' hn).1) hle
  · exact h.symm.extension (fun n _ n' hn _ _ _ _ hrelated => (hR hrelated n n' hn).2) hle

/-- Where everything that is related either is within `k` of each other or takes
    the next step together, it is all within `k`. -/
theorem within_of_inStep
    (h : ∀ {e e' : Expr} {ρ ρ' : Scopes}, R e ρ e' ρ' →
      Within k (reduce functions · e ρ) (reduce functions' · e' ρ') ∨
        InStep functions functions' .equality R e ρ e' ρ')
    (hR : R e ρ e' ρ') : Within k (reduce functions · e ρ) (reduce functions' · e' ρ') := by
  -- Both halves are proved in one induction on the smaller budget, which is that of
  -- the first side in the one and of the second side in the other.
  intro depth
  induction depth using Nat.strongRecOn generalizing e e' ρ ρ' with
  | ind depth ih =>
    intro depth' hle
    rcases h hR with hwithin | hstep
    · exact hwithin depth depth' hle
    · constructor
      · exact hstep.extension (fun n hn n' hle _ _ _ _ hrelated => (ih n hn hrelated n' hle).1) hle
      · exact hstep.symm.extension
          (fun n hn n' hle _ _ _ _ hrelated => (ih n hn hrelated n' hle).2) hle

end Steps

end LazyLisp
