import LazyLisp.Proofs.Evaluation.Lockstep

/-!
# Lexical scoping

The outcome of an evaluation depends on nothing but what the free names of the
expression stand for (`evaluate_eq_of_coincideOn`). Scopes may differ in number,
in the order and the kind of their bindings, and in all that the expression does
not refer to, be it directly or through what it refers to. In particular the body
of a function cannot tell where it is called from: what it finds there of its own
names are its parameters, and nothing else.

A name *coincides* in two lists of scopes (`Scopes.Coincide`) if it leads nowhere
in both, or leads to the same expression in both, with scopes in which the free
names of this expression coincide in turn. The relation is kept by every step,
as the scope of a `let` or of a call is put on both sides.
-/

namespace LazyLisp

namespace Scopes

/-- The name stands for the same in both: for nothing, or for one expression
    whose free names, where it is to be reduced, stand for the same again. -/
inductive Coincide : String → Scopes → Scopes → Prop
  | unbound {x : String} {ρ ρ' : Scopes} :
    ρ.resolve x = none → ρ'.resolve x = none → Coincide x ρ ρ'
  | bound {x : String} {e : Expr} {ρ ρ' σ σ' : Scopes} :
    ρ.resolve x = some (e, σ) → ρ'.resolve x = some (e, σ') →
    (∀ y ∈ e.free, Coincide y σ σ') → Coincide x ρ ρ'

/-- The names stand for the same in both. -/
def CoincideOn (names : List String) (ρ ρ' : Scopes) : Prop := ∀ x ∈ names, Coincide x ρ ρ'

variable {x : String} {ρ ρ' σ σ' : Scopes}

/-- What a name stands for is seen in what it leads to only. -/
theorem Coincide.congr (h : Coincide x σ σ') (hρ : ρ.resolve x = σ.resolve x)
    (hρ' : ρ'.resolve x = σ'.resolve x) : Coincide x ρ ρ' := by
  cases h with
  | unbound hσ hσ' => exact .unbound (hρ.trans hσ) (hρ'.trans hσ')
  | bound hσ hσ' he => exact .bound (hρ.trans hσ) (hρ'.trans hσ') he

end Scopes

open Scopes

section Coincidence

variable {functions : FunctionTable}

/-- The same expression on both sides, in scopes where its free names coincide. -/
def Coinciding (e : Expr) (ρ : Scopes) (e' : Expr) (ρ' : Scopes) : Prop :=
  e = e' ∧ CoincideOn e.free ρ ρ'

theorem Scopes.lead_coinciding_iff {x : String} {ρ ρ' : Scopes} :
    Lead Coinciding (ρ.resolve x) (ρ'.resolve x) ↔ Coincide x ρ ρ' := by
  rw [lead_iff]
  constructor
  · rintro (⟨hρ, hρ'⟩ | ⟨_, _, _, _, ⟨rfl, he⟩, hρ, hρ'⟩)
    · exact .unbound hρ hρ'
    · exact .bound hρ hρ' he
  · rintro (⟨hρ, hρ'⟩ | ⟨hρ, hρ', he⟩)
    · exact .inl ⟨hρ, hρ'⟩
    · exact .inr ⟨_, _, _, _, ⟨rfl, he⟩, hρ, hρ'⟩

theorem coinciding_same {e : Expr} {ρ ρ' : Scopes}
    (h : ∀ x ∈ e.free, Lead Coinciding (ρ.resolve x) (ρ'.resolve x)) : Coinciding e ρ e ρ' :=
  ⟨rfl, fun x hx => lead_coinciding_iff.1 (h x hx)⟩

theorem Scopes.Coincide.refl (x : String) (ρ : Scopes) : Coincide x ρ ρ :=
  lead_coinciding_iff.1 (Lead.refl coinciding_same x ρ)

theorem lockstep_coinciding : Lockstep functions functions .equality Coinciding := by
  rintro e ρ _ ρ' ⟨rfl, h⟩
  exact inStep_same coinciding_same (inStep_call coinciding_same) fun x hx =>
    lead_coinciding_iff.2 (h x hx)

/-- Reduction depends on nothing but what the free names stand for. -/
theorem reduce_eq_of_coincideOn {e : Expr} {ρ ρ' : Scopes} (h : CoincideOn e.free ρ ρ')
    (depth : Nat) : reduce functions depth e ρ = reduce functions depth e ρ' :=
  lockstep_coinciding.holds depth ⟨rfl, h⟩

end Coincidence

/-- Evaluation in two environments, of any two stores, in which the free names of
    the expression stand for the same has one outcome: the same value, the same
    error, or the same want of depth. The environments are such as programs build
    them: they bind plain expressions, and arguments deferred to environments of
    the same kind. -/
theorem evaluate_eq_of_coincideOn (functions : FunctionTable) (hfunctions : functions.plain = true)
    (e : Expr) (he : e.plain = true) {s t : Store} {l m : Loc} {ρ ρ' : Scopes}
    (hl : s.Represents l ρ) (hm : t.Represents m ρ') (h : CoincideOn e.free ρ ρ') (depth : Nat) :
    (evaluate functions depth e l s).1 = (evaluate functions depth e m t).1 := by
  rw [agreesAt hfunctions depth he hl, agreesAt hfunctions depth he hm]
  exact reduce_eq_of_coincideOn h depth

/-- A name that is bound by a `let` in the one environment and is a parameter in
    the other, where it stands among names that are never referred to. -/
theorem evaluate_eq_of_coincideOn_argument :
    let functions : FunctionTable :=
      ⟨[("f", ⟨["a", "b"], [.apply .multiply [.var "a", .var "b"]]⟩)]⟩
    let e : Expr :=
      .call "f" [.var "x", .letIn [("z", .int 1)] [.apply .add [.var "x", .var "z"]]]
    let bound : Expr := .apply .add [.var "y", .int 1]
    let s : Store := ⟨#[[[("x", bound)], [("y", .int 4)]]]⟩
    let t : Store := ⟨#[[[("y", .int 4)]],
      [[("a", .empty)], [("x", .deferred bound 0), ("x", .str "x")], [("y", .str "y")]]]⟩
    let ρ : Scopes := [[("x", .plain bound)], [("y", .plain (.int 4))]]
    let ρ' : Scopes := [[("a", .plain .empty)],
      [("x", .closure bound [[("y", .plain (.int 4))]]), ("x", .plain (.str "x"))],
      [("y", .plain (.str "y"))]]
    (functions.plain = true ∧ e.plain = true ∧ s.Represents 0 ρ ∧ t.Represents 1 ρ' ∧
        CoincideOn e.free ρ ρ') ∧
      (evaluate functions 12 e 0 s).1 = .ok (.int 30) ∧
      (evaluate functions 12 e 0 s).1 = (evaluate functions 12 e 1 t).1 := by
  intro functions e bound s t ρ ρ'
  have hs : s.Represents 0 ρ :=
    ⟨by decide, .cons (.cons (.plain rfl) .nil) (.cons (.cons (.plain rfl) .nil) .nil)⟩
  have ht : t.Represents 1 ρ' := by
    refine ⟨by decide, .cons (.cons (.plain rfl) .nil) (.cons (.cons ?_ (.cons (.plain rfl) .nil))
      (.cons (.cons (.plain rfl) .nil) .nil))⟩
    exact .closure rfl (by decide) (.cons (.cons (.plain rfl) .nil) .nil)
  have hcoincide : CoincideOn e.free ρ ρ' := by
    intro x hx
    obtain rfl : x = "x" := by simpa [e, Expr.free, Expr.freeAll, Expr.freeBound] using hx
    exact .bound rfl rfl fun y _ => .refl y _
  have hvalue : (evaluate functions 12 e 0 s).1 = .ok (.int 30) := by
    unfold functions e s bound
    cbv
  exact ⟨⟨rfl, rfl, hs, ht, hcoincide⟩, hvalue,
    evaluate_eq_of_coincideOn functions rfl e rfl hs ht hcoincide 12⟩

end LazyLisp
