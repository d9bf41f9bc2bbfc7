import LazyLisp.Proofs.Reading.Nodes
import LazyLisp.Proofs.Reading.Numerals

/-!
# Well-formed trees

What the rest of the program relies on in a tree that was read: references and calls can be
told apart by their names, names are such as can be written, functions have a body, and
texts consist of tokens. This holds at every node of every tree (`readExpr_wellFormed`), and
it takes nothing for granted. The tokens may be such as no source text has, and the names
of the functions may be any at all, numerals and parentheses among them.
-/

namespace LazyLisp

/-- The tokens that stand in a row somewhere in the list. -/
def runs (tokens : List Token) : List (List Token) := tokens.tails.flatMap List.inits

theorem mem_runs {words tokens : List Token} : words ∈ runs tokens ↔ words <:+: tokens := by
  simp [runs, List.infix_iff_prefix_suffix, and_comm]

/-- A word with a meaning of its own: a keyword or a truth value. -/
def isFixedWord (token : Token) : Bool :=
  token ∈ keywords.map Prod.fst || token = "true" || token = "false"

theorem not_isFixedWord_of_not_isReserved {t : Token} (h : isReserved t = false) :
    isFixedWord t = false := by
  rw [← Bool.not_eq_true, isReserved_iff] at h
  simp only [List.mem_cons, not_or] at h
  simp [isFixedWord, h]

/-- The names and the texts of the node are in order, given the names of the functions and the
    tokens that it was read from:

    * a reference is to an identifier that means nothing else, and to no function;
    * a call is of a function, and by a name that means nothing else;
    * what is bound, defined or a parameter has an identifier for its name;
    * a definition has a body;
    * a text is that of successive tokens without a quotation mark;
    * nothing is deferred. -/
def Expr.wellFormed (functions : List String) (tokens : List Token) : Expr → Bool
  | str t => (runs tokens).any fun words => t = joinTokens words && "\"" ∉ words
  | var x => isIdentifier x && !isFixedWord x && x ∉ functions
  | letIn bs _ => bs.all fun b => isIdentifier b.1
  | call f _ => f ∈ functions && !isFixedWord f
  | defun f ps es => isIdentifier f && ps.all isIdentifier && !es.isEmpty
  | deferred _ _ => false
  | int _ | bool _ | list _ | part _ _ | apply _ _ | ite _ _ _ | empty => true

variable {F : List String} {ts : List Token}

theorem ReadNode.wellFormed {e : Expr} (h : ReadNode F (· <:+: ts) e) :
    e.wellFormed F ts = true := by
  cases h with
  | int _ _ | bool _ | list _ | part _ _ | apply _ _ | ite _ _ _ | empty => rfl
  | @str words hrun hwords =>
    have hquote : "\"" ∉ words := fun hmem => hwords _ hmem rfl
    simp only [Expr.wellFormed, List.any_eq_true]
    exact ⟨words, mem_runs.2 hrun, by simp [hquote]⟩
  | var hhead =>
    obtain ⟨hreserved, hmem, -, hname⟩ := headOf_eq_name_iff.1 hhead
    simp [Expr.wellFormed, hname, not_isFixedWord_of_not_isReserved hreserved, hmem]
  | letIn es hnames => exact List.all_eq_true.2 hnames
  | call es hhead =>
    obtain ⟨hreserved, hmem⟩ := headOf_eq_call_iff.1 hhead
    simp [Expr.wellFormed, not_isFixedWord_of_not_isReserved hreserved, hmem]
  | defun hname hparameters hbody =>
    simpa [Expr.wellFormed, hname, hbody] using hparameters

/-- Every tree that is read, be it by itself or in a sequence, is well-formed at every node. -/
theorem readExpr_wellFormed (F : List String) (depth : Nat) (ts : List Token) :
    (∀ e rest, readExpr F depth ts = .ok (e, rest) → e.every (Expr.wellFormed F ts) = true) ∧
      ∀ es, readSequence F depth ts = .ok es →
        ∀ e ∈ es, e.every (Expr.wellFormed F ts) = true := by
  have hnode (e : Expr) (h : ReadNode F (· <:+: ts) e) := h.wellFormed
  have hruns : EveryRun (· <:+: ts) ts := fun _ hwords => hwords
  refine ⟨fun e rest h => (reads_of_readExpr h).every hnode hruns, fun es h => ?_⟩
  exact Expr.everyAll_iff.1 ((readsAll_of_readSequence h).everyAll hnode hruns)

/-- Functions with the names of a numeral, a keyword and a parenthesis, and a token with a
    blank in it: the keyword stays one, and the other two are called. -/
theorem readExpr_wellFormed_strangeNames :
    let F := ["1", "let", ")"]
    let ts := ["let", "(", "(", "if", "1", "x", ")", ")", "\"", "a b", ")", "\"", ")", "c"]
    let es : List Expr := [.letIn [("if", .call "1" [.var "x"])]
      [.str "a b )", .call ")" [.var "c"]]]
    readSequence F 9 ts = .ok es ∧ ∀ e ∈ es, e.every (Expr.wellFormed F ts) = true := by
  intro F ts es
  have h : readSequence F 9 ts = .ok es := by
    unfold F ts es
    cbv
  exact ⟨h, (readExpr_wellFormed F 9 ts).2 es h⟩

end LazyLisp
