import LazyLisp.Proofs.Expr.Every
import LazyLisp.Proofs.Reading.Grammar

/-!
# The nodes of what is read

What reading vouches for at every node of a tree, at whatever depth the node was read, and
whatever the tokens are (`ReadNode`): each name and number in the tree was a token, and each
text a run of tokens, in a place where the grammar admits it. A condition on nodes that
follows from this holds in all of the tree (`Reads.every`), so that what is said about the
trees that are read takes no induction of its own.
-/

namespace LazyLisp

/-- The nodes that are read, given the names of the functions and what is known of any tokens
    that stand in a row. -/
inductive ReadNode (F : List String) (W : List Token → Prop) : Expr → Prop
  | int {t : Token} {n : Int} : Head.of F t = .numeral → readNumeral t = .ok n →
    ReadNode F W (.int n)
  | bool (b : Bool) : ReadNode F W (.bool b)
  | str {words : List Token} : W words → (∀ w ∈ words, w ≠ "\"") →
    ReadNode F W (.str (joinTokens words))
  | var {x : String} : Head.of F x = .name → ReadNode F W (.var x)
  | list (es : List Expr) : ReadNode F W (.list es)
  | part (which : Part) (e : Expr) : ReadNode F W (.part which e)
  | apply (op : Op) (es : List Expr) : ReadNode F W (.apply op es)
  | ite (c t e : Expr) : ReadNode F W (.ite c t e)
  | letIn {bs : List (String × Expr)} (es : List Expr) : (∀ b ∈ bs, isIdentifier b.1 = true) →
    ReadNode F W (.letIn bs es)
  | call {f : String} (es : List Expr) : Head.of F f = .call → ReadNode F W (.call f es)
  | defun {f : String} {ps : List String} {es : List Expr} : isIdentifier f = true →
    (∀ p ∈ ps, isIdentifier p = true) → es ≠ [] → ReadNode F W (.defun f ps es)
  | empty : ReadNode F W .empty

variable {F : List String} {W : List Token → Prop} {p : Expr → Bool}

theorem ReadsAll.ne_nil {ts : List Token} {es : List Expr} (h : ReadsAll F ts es) (hne : ts ≠ []) :
    es ≠ [] := by
  cases h with
  | nil => exact absurd rfl hne
  | cons => exact List.cons_ne_nil _ _

theorem ReadsBindings.isIdentifier {ts : List Token} {bs : List (String × Expr)}
    (h : ReadsBindings F ts bs) : ∀ b ∈ bs, isIdentifier b.1 = true := by
  induction bs generalizing ts with
  | nil => exact List.forall_mem_nil _
  | cons b bs ih =>
    cases h with
    | cons hx _ _ hbs => exact List.forall_mem_cons.2 ⟨hx, ih hbs⟩

/-- The condition holds of any tokens that stand in a row in the list. -/
def EveryRun (W : List Token → Prop) (ts : List Token) : Prop := ∀ words, words <:+: ts → W words

section EveryRun

variable {t : Token} {us ts : List Token}

theorem EveryRun.of_suffix (h : EveryRun W ts) (hus : us <:+ ts) : EveryRun W us :=
  fun words hwords => h words (hwords.trans hus.isInfix)

theorem EveryRun.tail (h : EveryRun W (t :: ts)) : EveryRun W ts :=
  h.of_suffix (List.suffix_cons t ts)

theorem EveryRun.left (h : EveryRun W (us ++ ts)) : EveryRun W us :=
  fun words hwords => h words (hwords.trans (List.prefix_append us ts).isInfix)

theorem EveryRun.right (h : EveryRun W (us ++ ts)) : EveryRun W ts :=
  h.of_suffix (List.suffix_append us ts)

end EveryRun

mutual

/-- What holds of every node that can be read holds in all of a tree that is read. -/
theorem Reads.every (hp : ∀ e, ReadNode F W e → p e = true) : ∀ {ts rest : List Token} {e : Expr},
    Reads F ts e rest → EveryRun W ts → e.every p = true
  | _, _, _, .nothing, _ => hp _ .empty
  | _, _, _, .group _ h, hts => h.every hp hts.tail.left
  | _, _, _, .quotation hwords, hts => hp _ (.str (hts.tail.left _ List.infix_rfl) hwords)
  | _, _, _, .apply _ hes, hts => by
    rw [Expr.every, hp _ (.apply _ _), hes.everyAll hp hts.tail, Bool.and_true]
  | _, _, _, .list _ hes, hts => by
    rw [Expr.every, hp _ (.list _), hes.everyAll hp hts.tail, Bool.and_true]
  | _, _, _, .part _ h, hts => by
    rw [Expr.every, hp _ (.part _ _), h.every hp hts.tail, Bool.and_true]
  | _, _, _, .letIn _ _ hbs hes, hts => by
    rw [Expr.every, hp _ (.letIn _ hbs.isIdentifier), hbs.everyBound hp hts.tail.tail.left,
      hes.everyAll hp hts.tail.tail.right.tail, Bool.and_true, Bool.and_true]
  | _, _, _, .ite _ hes, hts => by
    have hbranches := hes.everyAll hp hts.tail
    simp only [Expr.everyAll, Bool.and_true, Bool.and_eq_true] at hbranches
    simp only [Expr.every, Bool.and_eq_true]
    exact ⟨hp _ (.ite _ _ _), ⟨hbranches.1, hbranches.2.1⟩, hbranches.2.2⟩
  | _, _, _, .defun _ hname hparameters hbody hes, hts => by
    rw [Expr.every, hp _ (.defun hname hparameters (hes.ne_nil hbody)),
      hes.everyAll hp hts.tail.tail.tail.right.tail, Bool.and_true]
  | _, _, _, .bool _, _ => hp _ (.bool _)
  | _, _, _, .call hhead hes, hts => by
    rw [Expr.every, hp _ (.call _ hhead), hes.everyAll hp hts.tail, Bool.and_true]
  | _, _, _, .numeral hhead hn, _ => hp _ (.int hhead hn)
  | _, _, _, .name hhead, _ => hp _ (.var hhead)

theorem ReadsAll.everyAll (hp : ∀ e, ReadNode F W e → p e = true) : ∀ {ts : List Token}
    {es : List Expr}, ReadsAll F ts es → EveryRun W ts → Expr.everyAll p es = true
  | _, _, .nil, _ => rfl
  | _, _, .cons he hes, hts => by
    have hrest := hts.of_suffix (he.suffix.trans (List.suffix_cons _ _))
    rw [Expr.everyAll, he.every hp hts, hes.everyAll hp hrest, Bool.and_true]

theorem ReadsBindings.everyBound (hp : ∀ e, ReadNode F W e → p e = true) : ∀ {ts : List Token}
    {bs : List (String × Expr)}, ReadsBindings F ts bs → EveryRun W ts →
      Expr.everyBound p bs = true
  | _, _, .nil, _ => rfl
  | _, _, @ReadsBindings.cons _ _ t ts rest _ _ _ _ he hbs, hts => by
    have hvalue : EveryRun W (t :: ts ++ ")" :: rest) := hts.tail.tail
    rw [Expr.everyBound, he.every hp hvalue.left, hbs.everyBound hp hvalue.right.tail,
      Bool.and_true]

end

end LazyLisp
