import LazyLisp.Program
import Mathlib

/-!
# Definitions

What the definitions of a program come to. In the function table the last definition of
a name counts, and the order of the others does not (`FunctionTable.get?_ofDefinitions`).
Evaluation takes nothing from the table but the functions of the names
(`evaluate_congr`), so that the values of a program depend on the last definitions, and
on its other expressions in their order (`Execution.values_ofProgram_congr`).
-/

namespace LazyLisp

/-! ## Function tables -/

namespace FunctionTable

theorem lookup_cons_eq_ite (f g : String) (function : Function)
    (entries : List (String × Function)) :
    List.lookup g ((f, function) :: entries) =
      if g = f then some function else entries.lookup g := by
  by_cases h : g = f
  · rw [h, List.lookup_cons_self, if_pos rfl]
  · rw [List.lookup_cons, beq_false_of_ne h, if_neg h]

theorem lookup_insertEntry (f g : String) (function : Function)
    (entries : List (String × Function)) :
    (insertEntry f function entries).lookup g =
      if g = f then some function else entries.lookup g := by
  induction entries with
  | nil => exact lookup_cons_eq_ite f g function []
  | cons entry entries ih =>
    obtain ⟨n, other⟩ := entry
    rw [insertEntry]
    split
    · next hn =>
      subst hn
      rw [lookup_cons_eq_ite, lookup_cons_eq_ite]
      split <;> rfl
    · next hn =>
      rw [lookup_cons_eq_ite, lookup_cons_eq_ite, ih]
      -- The names differ, so that at most one of the two is looked up.
      split
      · next hg =>
        subst hg
        rw [if_neg hn]
      · rfl

theorem get?_define (functions : FunctionTable) (d : Definition) (f : String) :
    (functions.define d).get? f = if f = d.name then some d.function else functions.get? f :=
  lookup_insertEntry d.name f d.function functions.entries

theorem ofDefinitions_concat (ds : List Definition) (d : Definition) :
    ofDefinitions (ds ++ [d]) = (ofDefinitions ds).define d := by
  rw [ofDefinitions, Draft.ofDefinitions, List.foldl_concat]
  rfl

/-- The function of a name is that of its last definition. -/
theorem get?_ofDefinitions (definitions : List Definition) (f : String) :
    (ofDefinitions definitions).get? f =
      (definitions.filter (·.name = f)).getLast?.map Definition.function := by
  induction definitions using List.reverseRecOn with
  | nil => rfl
  | append_singleton definitions d ih =>
    -- The definition that comes last decides for its own name, and for no other.
    rw [ofDefinitions_concat, get?_define, ih, List.filter_append]
    by_cases h : d.name = f
    · simp [h]
    · simp [h, Ne.symm h]

end FunctionTable

/-! ## Evaluation -/

section Evaluation

variable {functions functions' : FunctionTable}

/-- Evaluation takes nothing from a table but the functions of the names. -/
theorem evaluate_congr (h : ∀ f, functions.get? f = functions'.get? f) (depth : Nat) :
    evaluate functions depth = evaluate functions' depth := by
  induction depth with
  | zero => rfl
  | succ depth ih =>
    funext e l
    cases e with
    | letIn bindings body => cases body <;> simp only [evaluate, ih]
    | _ => simp only [evaluate, FunctionTable.lookup, h, ih]

namespace Execution

theorem ofExprs_congr (h : ∀ f, functions.get? f = functions'.get? f) (depth : Nat)
    (es : List Expr) : ofExprs functions depth es = ofExprs functions' depth es := by
  induction es with
  | nil => rfl
  | cons e es ih => simp only [ofExprs, evaluateIn, evaluate_congr h, ih]

/-- The values of a program depend on the definitions of each name, in their order, and on
    the other expressions, in theirs. -/
theorem values_ofProgram_congr {es es' : List Expr} (hbody : body es = body es')
    (hdefinitions : ∀ f, (definitions es).filter (·.name = f) =
      (definitions es').filter (·.name = f)) (depth : Nat) :
    (ofProgram es depth).values = (ofProgram es' depth).values := by
  have htable (f : String) : (FunctionTable.ofDefinitions (definitions es)).get? f =
      (FunctionTable.ofDefinitions (definitions es')).get? f := by
    rw [FunctionTable.get?_ofDefinitions, FunctionTable.get?_ofDefinitions, hdefinitions]
  simp only [ofProgram, hbody, ofExprs_congr htable]

end Execution

end Evaluation

end LazyLisp
