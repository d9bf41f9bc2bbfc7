import LazyLisp.Proofs.Evaluation.Substitution
import LazyLisp.Proofs.Program.Definitions

/-!
# Renaming of parameters

A parameter of a function can be given another name (`evaluate_rename`), provided that the
new name occurs nowhere in the function: a parameter of this name would be confused with it,
a free name of the body would be captured, and a `let` in the body would capture it in turn.

From the first call on, the two sides hold scopes with different names in them. What
matters is what the names lead to. In the body of the function, and in the `let`s inside of
it that do not bind the old name again, the old name leads on the one side to what the new
name leads to on the other; everywhere else the expressions are the same on both sides, and
each name leads on both sides to what is related in this way again (`Renamed`). So it does no
harm if an argument mentions a name of the caller that is also the old or the new name of the
parameter.
-/

namespace LazyLisp

open Scopes

/-! ## Functions with a renamed parameter -/

/-- The name, or the new one in place of the old. -/
def renameOf (p q x : String) : String := if x = p then q else x

/-- The function with the parameter `p` renamed to `q`, and with it the free references to
    it in the body. -/
def Function.rename (function : Function) (p q : String) : Function :=
  ⟨function.parameters.map (renameOf p q), Expr.substAll function.body p (.var q)⟩

/-- The node neither refers to the name nor binds it. -/
def Expr.lacks (name : String) : Expr → Bool
  | var x => x ≠ name
  | letIn bs _ => bs.all (·.1 ≠ name)
  | _ => true

section Lacks

variable {q : String}

theorem Expr.notMem_free_of_lacks {e : Expr} (h : every (lacks q) e = true) : q ∉ e.free := by
  induction e with
  | int _ | bool _ | str _ | defun _ _ _ | empty | deferred _ _ => simp [free]
  | var x =>
    rw [free, List.mem_singleton]
    simpa [every, lacks] using Ne.symm (of_decide_eq_true h)
  | list es ih | apply o es ih | call f es ih =>
    simp only [every, Bool.and_eq_true, everyAll_iff] at h
    rw [free, mem_freeAll]
    rintro ⟨e, he, hq⟩
    exact ih e he (h.2 e he) hq
  | part w e ih =>
    simp only [every, Bool.and_eq_true] at h
    exact ih h.2
  | ite c t e ihc iht ihe =>
    simp only [every, Bool.and_eq_true] at h
    simp [free, ihc h.2.1.1, iht h.2.1.2, ihe h.2.2]
  | letIn bs es ihbs ihes =>
    simp only [every, Bool.and_eq_true, everyAll_iff, everyBound_iff] at h
    rw [free, List.mem_append, mem_freeBound, List.mem_filter, mem_freeAll]
    rintro (⟨b, hb, hq⟩ | ⟨⟨e, he, hq⟩, -⟩)
    · exact ihbs b hb (h.2.1 b hb) hq
    · exact ihes e he (h.2.2 e he) hq

theorem Expr.spares_of_lacks {e : Expr} (h : every (lacks q) e = true) :
    every (spares [q]) e = true := by
  refine every_imp (fun e he => ?_) e h
  have hself := every_self he
  cases e with
  | letIn bs es => simpa only [spares, lacks, List.mem_singleton] using hself
  | _ => rfl

end Lacks

/-! ## What is the same under two names -/

/-- What stands on the two sides, if a parameter `p` has the name `q` on the second: one
    expression, whose free names lead to what is on the two sides again, or an expression of
    the body of the function, where `p` leads to what `q` leads to on the second side. -/
inductive Renamed (p q : String) : Expr → Scopes → Expr → Scopes → Prop
  | same {b : Expr} {ρ ρ' : Scopes} :
    (∀ y ∈ b.free, Lead (Renamed p q) (ρ.resolve y) (ρ'.resolve y)) → Renamed p q b ρ b ρ'
  | renamed {b e e' : Expr} {ρ ρ' σ σ' : Scopes} : b.every (Expr.spares [q]) = true →
    ρ.resolve p = some (e, σ) → ρ'.resolve q = some (e', σ') → Renamed p q e σ e' σ' →
    (∀ y ∈ b.free, y ≠ p → Lead (Renamed p q) (ρ.resolve y) (ρ'.resolve y)) →
    Renamed p q b ρ (b.subst p (.var q)) ρ'

/-- The one name leads on the first side to what the other leads to on the second. -/
def RenamedAt (p q : String) (ρ ρ' : Scopes) : Prop :=
  ∃ e σ e' σ', ρ.resolve p = some (e, σ) ∧ ρ'.resolve q = some (e', σ') ∧ Renamed p q e σ e' σ'

section Renamed

variable {p q : String} {ρ ρ' : Scopes}

theorem RenamedAt.renamed (hp : RenamedAt p q ρ ρ') {b : Expr}
    (hb : b.every (Expr.spares [q]) = true)
    (h : ∀ y ∈ b.free, y ≠ p → Lead (Renamed p q) (ρ.resolve y) (ρ'.resolve y)) :
    Renamed p q b ρ (b.subst p (.var q)) ρ' := by
  obtain ⟨e, σ, e', σ', hp, hq, hR⟩ := hp
  exact .renamed hb hp hq hR h

theorem RenamedAt.letIn {bs bs' : Scope} (hp : RenamedAt p q ρ ρ') (hbs : bs.lookup p = none)
    (hbs' : ∀ y ∈ [q], bs'.lookup y = none) :
    RenamedAt p q (plainScope bs :: ρ) (plainScope bs' :: ρ') := by
  obtain ⟨e, σ, e', σ', hp, hq, hR⟩ := hp
  refine ⟨e, σ, e', σ', (resolve_letIn_of_none hbs).trans hp, ?_, hR⟩
  exact (resolve_letIn_of_none (hbs' q (List.mem_singleton_self q))).trans hq

/-! ### Calls -/

/-- A name that is renamed like no other parameter leads to the same argument. -/
theorem Scopes.resolve_call_map {r : String → String} {x : String} {parameters : List String}
    (hr : ∀ y ∈ parameters, r y = r x → y = x) (arguments : List Expr) (ρ : Scopes) :
    resolve (r x) [closureScope (parameters.map r) arguments ρ] =
      resolve x [closureScope parameters arguments ρ] := by
  rw [resolve_call, resolve_call]
  congr 1
  induction parameters generalizing arguments with
  | nil => rfl
  | cons y parameters ih =>
    cases arguments with
    | nil => rfl
    | cons a arguments =>
      rw [List.forall_mem_cons] at hr
      rw [List.map_cons, List.zip_cons_cons, List.zip_cons_cons, List.lookup_cons,
        List.lookup_cons, ih hr.2]
      by_cases hx : x = y
      · simp [hx]
      · have hne : r x ≠ r y := fun h => hx (hr.1 h.symm).symm
        rw [beq_false_of_ne hx, beq_false_of_ne hne]

section Calls

variable {function : Function} {arguments arguments' : List Expr}
  (harguments : List.Forall₂ (Renamed p q · ρ · ρ') arguments arguments')

include harguments

/-- The parameter leads to the same argument under its new name. -/
theorem renamedAt_call (hp : p ∈ function.parameters) (hq : q ∉ function.parameters)
    (harity : function.arity = arguments.length) :
    RenamedAt p q [closureScope function.parameters arguments ρ]
      [closureScope (function.rename p q).parameters arguments' ρ'] := by
  have hr : ∀ y ∈ function.parameters, renameOf p q y = renameOf p q p → y = p := by
    intro y hy h
    by_contra hne
    rw [renameOf, if_neg hne, renameOf, if_pos rfl] at h
    exact hq (h ▸ hy)
  have hresolve := resolve_call_map hr arguments' ρ'
  rw [renameOf, if_pos rfl] at hresolve
  have hlead := Lead.call harguments function.parameters p
  rw [← hresolve] at hlead
  rcases (lead_iff _ _ _).1 hlead with ⟨hnone, -⟩ | ⟨e, e', σ, σ', hR, hσ, hσ'⟩
  · obtain ⟨a, -, ha⟩ := exists_lookup_zip hp harity
    rw [resolve_call, ha] at hnone
    cases hnone
  · exact ⟨e, σ, e', σ', hσ, hσ', hR⟩

/-- The other names lead to what they led to. -/
theorem lead_call_of_ne {y : String} (hp : y ≠ p) (hq : y ≠ q) :
    Lead (Renamed p q) (resolve y [closureScope function.parameters arguments ρ])
      (resolve y [closureScope (function.rename p q).parameters arguments' ρ']) := by
  have hr : ∀ z ∈ function.parameters, renameOf p q z = renameOf p q y → z = y := by
    intro z _ h
    rw [renameOf, renameOf, if_neg hp] at h
    split at h
    · exact absurd h.symm hq
    · exact h
  have hresolve := resolve_call_map hr arguments' ρ'
  rw [renameOf, if_neg hp] at hresolve
  have hlead := Lead.call harguments function.parameters y
  rwa [← hresolve] at hlead

end Calls

/-! ### Lockstep -/

section Lockstep

variable {functions : FunctionTable} {f : String} {function : Function}
  (hf : functions.get? f = some function) (hp : p ∈ function.parameters)
  (hq : q ∉ function.parameters) (hbody : Expr.everyAll (Expr.lacks q) function.body = true)

include hf hp hq hbody

/-- A call of any function, be it the one with the renamed parameter. -/
theorem inStep_call_rename {g : String} {arguments arguments' : List Expr}
    (harguments : List.Forall₂ (Renamed p q · ρ · ρ') arguments arguments') :
    InStep functions (functions.define ⟨f, function.rename p q⟩) .equality (Renamed p q)
      (.call g arguments) ρ (.call g arguments') ρ' := by
  refine inStep_call_of_rel harguments.length_eq ?_
  rw [FunctionTable.get?_define]
  split
  · next hg =>
    -- The bodies differ, but where they are entered the two names lead to the same argument.
    subst hg
    rw [hf]
    refine .some ⟨(List.length_map _).symm, fun harity => ?_⟩
    rw [Function.rename, Expr.substAll_eq_map, List.forall₂_map_right_iff, List.forall₂_same]
    intro b hb
    have hlacks := Expr.everyAll_iff.1 hbody b hb
    refine (renamedAt_call harguments hp hq harity).renamed (Expr.spares_of_lacks hlacks) ?_
    intro y hy hne
    refine lead_call_of_ne harguments hne ?_
    rintro rfl
    exact Expr.notMem_free_of_lacks hlacks hy
  · -- Any other function is the same on both sides.
    rcases functions.get? g with _ | other
    · exact .none
    · refine .some ⟨rfl, fun _ => List.forall₂_same.2 fun b _ => .same fun y _ => ?_⟩
      exact .call harguments other.parameters y

theorem lockstep_renamed :
    Lockstep functions (functions.define ⟨f, function.rename p q⟩) .equality (Renamed p q) := by
  intro b ρ b' ρ' h
  cases h with
  | same h => exact inStep_same .same (inStep_call_rename hf hp hq hbody) h
  | renamed hb hσ hσ' hR h =>
    have hstep := inStep_subst (RenamedAt p q) .same (fun hb hp => hp.renamed hb) RenamedAt.letIn
      (inStep_call_rename hf hp hq hbody) hb ⟨_, _, _, _, hσ, hσ', hR⟩ h
    rcases hstep with rfl | hstep
    · rw [Expr.subst, if_pos rfl]
      exact .var hσ hσ' hR
    · exact hstep

end Lockstep

end Renamed

/-! ## Evaluation -/

theorem FunctionTable.mem_insertEntry {name : String} {function : Function}
    {entry : String × Function} {entries : List (String × Function)}
    (h : entry ∈ insertEntry name function entries) : entry ∈ entries ∨ entry.2 = function := by
  induction entries with
  | nil => exact .inr (congrArg Prod.snd (List.mem_singleton.1 h))
  | cons other entries ih =>
    rw [insertEntry] at h
    split at h <;> rcases List.mem_cons.1 h with rfl | h
    · exact .inr rfl
    · exact .inl (List.mem_cons_of_mem _ h)
    · exact .inl List.mem_cons_self
    · exact (ih h).imp_left (List.mem_cons_of_mem _)

theorem FunctionTable.plain_define {functions : FunctionTable} (h : functions.plain = true)
    {d : Definition} (hd : Expr.plainAll d.function.body = true) :
    (functions.define d).plain = true := by
  rw [plain, List.all_eq_true] at h ⊢
  rintro ⟨f, function⟩ hentry
  rcases mem_insertEntry hentry with hmem | hfunction
  · exact h (f, function) hmem
  · obtain rfl : function = d.function := hfunction
    exact hd

/-- A parameter of a function can be renamed to any name that occurs nowhere in the function:
    every evaluation, in any environment as programs build them, has the same outcome as
    before, the same value, the same error, or the same want of depth. -/
theorem evaluate_rename (functions : FunctionTable) (hfunctions : functions.plain = true)
    {f : String} {function : Function} (hf : functions.get? f = some function) {p q : String}
    (hp : p ∈ function.parameters) (hq : q ∉ function.parameters)
    (hbody : Expr.everyAll (Expr.lacks q) function.body = true) (e : Expr) (he : e.plain = true)
    {s : Store} {l : Loc} {ρ : Scopes} (hl : s.Represents l ρ) (depth : Nat) :
    (evaluate functions depth e l s).1 =
      (evaluate (functions.define ⟨f, function.rename p q⟩) depth e l s).1 := by
  have hplain : Expr.plainAll function.body = true :=
    Expr.plainAll_iff.2 (FunctionTable.plainAll_body hfunctions (FunctionTable.lookup_eq_ok hf))
  have hrenamed : Expr.plainAll (function.rename p q).body = true := by
    rw [Function.rename, Expr.substAll_eq_map, Expr.plainAll_iff, List.forall_mem_map]
    exact fun b hb => Expr.plain_subst rfl b (Expr.plainAll_iff.1 hplain b hb)
  rw [agreesAt hfunctions depth he hl,
    agreesAt (FunctionTable.plain_define hfunctions hrenamed) depth he hl]
  exact (lockstep_renamed hf hp hq hbody).holds depth (.same fun y _ => .refl .same y ρ)

/-- The new name is one of the caller's, whose value is passed, the old one is bound again in the
    body, to what it stood for, and the function calls itself. -/
theorem evaluate_rename_boundAgain :
    let body (x : String) : Expr :=
      .ite (.apply .equal [.var "n", .int 0]) (.var x)
        (.apply .add [.letIn [("x", .apply .multiply [.var x, .int 2])] [.var "x"],
          .call "f" [.apply .add [.var x, .var "n"], .apply .subtract [.var "n", .int 1]]])
    let function : Function := ⟨["x", "n"], [body "x"]⟩
    let functions : FunctionTable := ⟨[("f", function)]⟩
    let e : Expr := .call "f" [.apply .subtract [.var "y", .var "x"], .int 2]
    let s : Store := ⟨#[[[("x", .int 4)]], [[("y", .deferred (.var "x") 0)], [("x", .int 1)]]]⟩
    let ρ : Scopes :=
      [[("y", .closure (.var "x") [[("x", .plain (.int 4))]])], [("x", .plain (.int 1))]]
    (functions.plain = true ∧ functions.get? "f" = some function ∧ "x" ∈ function.parameters ∧
        "y" ∉ function.parameters ∧ Expr.everyAll (Expr.lacks "y") function.body = true ∧
        e.plain = true ∧ s.Represents 1 ρ) ∧
      function.rename "x" "y" = ⟨["y", "n"], [body "y"]⟩ ∧
      (evaluate functions 20 e 1 s).1 = .ok (.int 22) ∧
      (evaluate (functions.define ⟨"f", function.rename "x" "y"⟩) 20 e 1 s).1 =
        .ok (.int 22) := by
  intro body function functions e s ρ
  have hs : s.Represents 1 ρ := by
    refine ⟨by decide, .cons (.cons ?_ .nil) (.cons (.cons (.plain rfl) .nil) .nil)⟩
    exact .closure rfl (by decide) (.cons (.cons (.plain rfl) .nil) .nil)
  have hlacks : Expr.everyAll (Expr.lacks "y") function.body = true := by decide +kernel
  have hvalue : (evaluate functions 20 e 1 s).1 = .ok (.int 22) := by
    unfold functions function body e s
    cbv
  refine ⟨⟨rfl, rfl, by decide, by decide, hlacks, rfl, hs⟩, rfl, hvalue, ?_⟩
  rw [← evaluate_rename functions rfl rfl (by decide) (by decide) hlacks e rfl hs 20]
  exact hvalue

end LazyLisp
