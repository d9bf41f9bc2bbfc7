import LazyLisp.Proofs.Reading.Groups
import LazyLisp.Proofs.Reading.Nodes

/-!
# Declarations

The names of the functions are collected before anything is read, from pairs of tokens that
stand next to each other and with no idea of what is a group, a text or a binding. Still, no
top-level definition is missed (`readProgram_declares`), and so what is read as a reference
is never one to a function of the program, even if it stands before the definition.

A definition is missed only if its `defun` is taken for a name, because another `defun`
stands right before it. But an expression that leaves tokens over does not end with a
`defun`, so that what they declare is found in all of the tokens as well
(`Reads.declaredNames_subset`).
-/

namespace LazyLisp

/-! ## Declared names -/

variable {F : List String}

theorem ne_defun_of_headOf {t : Token} {head : Head} (h : Head.of F t = head)
    (hhead : head ≠ .form .defun) : t ≠ "defun" := by
  rintro rfl
  exact hhead (h.symm.trans (headOf_eq_defun_iff.2 rfl))

/-- The names declared in what an expression leaves over are declared. -/
theorem Reads.declaredNames_subset : ∀ {ts rest : List Token} {e : Expr}, Reads F ts e rest →
    declaredNames rest ⊆ declaredNames ts
  | _, _, _, @Reads.group _ inner rest _ _ _ =>
    declaredNames_subset_append (by decide) ("(" :: inner) rest
  | _, _, _, @Reads.quotation _ words rest _ =>
    declaredNames_subset_append (by decide) ("\"" :: words) rest
  | _, _, _, .part hhead h =>
    List.Subset.trans h.declaredNames_subset
      (declaredNames_subset_append (ne_defun_of_headOf hhead (by simp)) [] _)
  | _, _, _, .bool hhead | _, _, _, .numeral hhead _ | _, _, _, .name hhead =>
    declaredNames_subset_append (ne_defun_of_headOf hhead (by simp)) [] _
  | _, _, _, .nothing | _, _, _, .apply _ _ | _, _, _, .list _ _ | _, _, _, .letIn _ _ _ _
  | _, _, _, .ite _ _ | _, _, _, .defun _ _ _ _ _ | _, _, _, .call _ _ => List.nil_subset _

section Definitions

variable {name : String} {parameters : List String} {body : List Expr}

/-- A definition at the front of the tokens, be it in parentheses, declares its name. -/
theorem Reads.mem_declaredNames : ∀ {ts rest : List Token},
    Reads F ts (.defun name parameters body) rest → name ∈ declaredNames ts
  | _, _, @Reads.group _ inner rest _ _ h => by
    refine declaredNames_subset_append (t := "(") (by decide) [] (inner ++ ")" :: rest) ?_
    rw [declaredNames_append_close]
    exact List.mem_append_left _ h.mem_declaredNames
  | _, _, .defun hhead hname _ _ _ => by
    rw [declaredNames, if_pos ⟨headOf_eq_defun_iff.1 hhead, hname⟩]
    exact List.mem_cons_self
termination_by ts => ts.length

theorem ReadsAll.mem_declaredNames {ts : List Token} {es : List Expr} (h : ReadsAll F ts es)
    (hdefun : .defun name parameters body ∈ es) : name ∈ declaredNames ts := by
  induction es generalizing ts with
  | nil => cases hdefun
  | cons e es ih =>
    cases h with
    | cons he hes =>
      rcases List.mem_cons.1 hdefun with rfl | hdefun
      · exact he.mem_declaredNames
      · exact he.declaredNames_subset (ih hes hdefun)

end Definitions

/-! ## References -/

/-- The node is a reference to the name. -/
def Expr.refersTo (name : String) : Expr → Bool
  | var x => x = name
  | _ => false

theorem ReadNode.not_refersTo {W : List Token → Prop} {e : Expr} (h : ReadNode F W e)
    {name : String} (hname : name ∈ F) : (!e.refersTo name) = true := by
  cases h with
  | @var x hhead =>
    obtain ⟨-, hx, -⟩ := headOf_eq_name_iff.1 hhead
    have hne : x ≠ name := fun heq => hx (heq ▸ hname)
    simpa [Expr.refersTo] using hne
  | _ => rfl

/-- In a program that is read, every top-level definition has a declared name, and no tree
    has a reference to this name anywhere. -/
theorem readProgram_declares {depth : Nat} {ts : List Token} {es : List Expr}
    (h : readProgram depth ts = .ok es) {name : String} {parameters : List String}
    {body : List Expr} (hdefun : .defun name parameters body ∈ es) :
    name ∈ declaredNames ts ∧ ∀ e ∈ es, e.every (fun node => !node.refersTo name) = true := by
  have hreads := readsAll_of_readProgram h
  have hname := hreads.mem_declaredNames hdefun
  refine ⟨hname, Expr.everyAll_iff.1 ?_⟩
  exact hreads.everyAll (fun _ hnode => hnode.not_refersTo hname) fun _ _ => trivial

/-- A definition after its name was bound by a `let` and called there, and right after a text
    that ends with `defun`. -/
theorem readProgram_declares_afterText :
    let ts := tokenize "(let ((f 2)) (f f)) \" a defun \" defun f (x) car x"
    let es : List Expr := [.letIn [("f", .int 2)] [.call "f" [.call "f" []]], .str "a defun",
      .defun "f" ["x"] [.part .car (.var "x")]]
    readProgram 20 ts = .ok es ∧ "f" ∈ declaredNames ts ∧
      ∀ e ∈ es, e.every (fun node => !node.refersTo "f") = true := by
  intro ts es
  have hread : readProgram 20 ts = .ok es := by
    unfold ts es
    cbv
  have hdefun : .defun "f" ["x"] [.part .car (.var "x")] ∈ es := by simp [es]
  exact ⟨hread, readProgram_declares hread hdefun⟩

end LazyLisp
