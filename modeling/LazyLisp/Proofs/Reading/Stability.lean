import LazyLisp.Proofs.Reading.DeclaredNames
import LazyLisp.Proofs.Reading.Nesting
import LazyLisp.Proofs.Reading.Nodes

/-!
# Programs that are written and read again

A program that was read can always be written again, but its source text is not
always read as the same program. It adds parentheses that the program did not
need, and two scans take notice of them:

* the matching of parentheses counts those inside of texts, so a text with
  unmatched ones, harmless outside of any group, breaks the group that it is
  written in;
* the search for declared names sees a `(` between a binding named `defun` and a
  call that is bound to it, so the name of the call is no longer declared.

Nothing else goes wrong (`readProgram_sourceText_iff`).
-/

namespace LazyLisp

/-! ## What is read is legible -/

/-- A token that is no quotation mark. -/
def isUnquoted (token : Token) : Bool := token ≠ "\""

theorem ne_quote_of_isUnquoted {t : Token} (h : isUnquoted t = true) : t ≠ "\"" := by
  simpa [isUnquoted] using h

/-- A token is a text of one token, itself. -/
theorem tokenize_of_mem_tokenize {s : String} {t : Token} (h : t ∈ tokenize s) :
    tokenize t = [t] := by
  rcases isAtom_or_delimiter h with hatom | rfl | rfl | rfl
  · exact tokenize_of_isAtom hatom
  · decide
  · decide
  · decide

variable {F : List String}

/-- What reading vouches for at every node: it can be written, and it calls the
    functions. -/
def Expr.faithful (functions : List String) (e : Expr) : Bool :=
  e.legible isUnquoted && e.resolved functions

theorem ReadNode.faithful (hF : ∀ f ∈ F, isIdentifier f = true) {e : Expr}
    (h : ReadNode F (fun words => ∀ w ∈ words, tokenize w = [w]) e) : e.faithful F = true := by
  cases h with
  | bool _ | list _ | part _ _ | apply _ _ | ite _ _ _ | empty => rfl
  | int hhead hn =>
    simp only [Expr.faithful, Expr.legible, Expr.resolved, Bool.and_true]
    exact fitsDigitLimit_of_readNumeral (headOf_eq_numeral_iff.1 hhead).2.2 hn
  | str htokens hwords =>
    have hjoin := tokenize_joinTokens htokens
    simpa [Expr.faithful, Expr.legible, Expr.resolved, isPhrase, hjoin, isUnquoted] using hwords
  | var hhead =>
    obtain ⟨hreserved, hmem, -, hname⟩ := headOf_eq_name_iff.1 hhead
    simp [Expr.faithful, Expr.legible, Expr.resolved, hreserved, hmem, hname]
  | letIn es hnames =>
    simp only [Expr.faithful, Expr.legible, Expr.resolved, Bool.and_true, List.all_eq_true]
    exact hnames
  | call es hhead =>
    obtain ⟨hreserved, hmem⟩ := headOf_eq_call_iff.1 hhead
    simp [Expr.faithful, Expr.legible, Expr.resolved, hreserved, hmem, hF _ hmem]
  | defun hname hparameters hbody =>
    simp only [Expr.faithful, Expr.legible, Expr.resolved, Bool.and_true, Bool.and_eq_true,
      List.all_eq_true, Bool.not_eq_true', List.isEmpty_eq_false_iff]
    exact ⟨⟨hname, hparameters⟩, hbody⟩

theorem ReadsAll.faithful (hF : ∀ f ∈ F, isIdentifier f = true) {ts : List Token} {es : List Expr}
    (h : ReadsAll F ts es) (hts : ∀ t ∈ ts, tokenize t = [t]) :
    Expr.everyAll (Expr.faithful F) es = true :=
  h.everyAll (fun _ => ReadNode.faithful hF) fun _ hwords w hw => hts w (hwords.subset hw)

/-! ## Source texts that are read again -/

namespace Expr

theorem legible_of_faithful {es : List Expr} (h : everyAll (faithful F) es = true) :
    everyAll (legible isUnquoted) es = true := by
  refine everyAll_imp (fun e he => ?_) es h
  have hself := every_self he
  rw [faithful, Bool.and_eq_true] at hself
  exact hself.1

theorem resolved_of_faithful {es : List Expr} (h : everyAll (faithful F) es = true) :
    everyAll (resolved F) es = true := by
  refine everyAll_imp (fun e he => ?_) es h
  have hself := every_self he
  rw [faithful, Bool.and_eq_true] at hself
  exact hself.2

/-- The source texts of the expressions of a program, one after the other. -/
def sourceText (es : List Expr) : String := " ".intercalate (sourceAll es)

theorem tokenize_sourceText (es : List Expr) : tokenize (sourceText es) = tokensAll es :=
  tokenize_intercalate _

/-- When legible trees are what their source texts are read as. -/
theorem readsAll_tokensAll_iff (hF : ∀ f ∈ F, isIdentifier f = true) {es : List Expr}
    (hes : everyAll (legible isUnquoted) es = true) :
    ReadsAll F (tokensAll es) es ↔ everyAll closed es = true ∧ everyAll (resolved F) es = true := by
  have hword (w : Token) : isUnquoted w = true → w ≠ "\"" := ne_quote_of_isUnquoted
  constructor
  · intro h
    have hparen : ")" ∉ F := fun hmem => absurd (hF _ hmem) (by decide)
    refine ⟨closed_of_nested hword es hes (h.nested hparen),
      resolved_of_faithful (h.faithful hF ?_)⟩
    rw [← tokenize_sourceText]
    exact fun t => tokenize_of_mem_tokenize
  · rintro ⟨hclosed, hresolved⟩
    exact readsAll_tokensAll hF hword es hes hclosed hresolved

end Expr

theorem legible_of_readProgram {depth : Nat} {s : String} {es : List Expr}
    (h : readProgram depth (tokenize s) = .ok es) :
    Expr.everyAll (Expr.legible isUnquoted) es = true :=
  Expr.legible_of_faithful ((readsAll_of_readProgram h).faithful
    (fun _ => isIdentifier_of_mem_declaredNames) fun _ => tokenize_of_mem_tokenize)

/-- A source text that is read as the program it was written from is that of a
    closed program, with calls of just the names that it declares. -/
theorem closed_of_readProgram_sourceText {depth : Nat} {es : List Expr}
    (h : readProgram depth (tokenize (Expr.sourceText es)) = .ok es) :
    Expr.everyAll Expr.closed es = true ∧
      Expr.everyAll (Expr.resolved (declaredNames (tokenize (Expr.sourceText es)))) es = true := by
  have hreads := readsAll_of_readProgram h
  rw [← Expr.readsAll_tokensAll_iff (fun _ => isIdentifier_of_mem_declaredNames)
    (legible_of_readProgram h)]
  rwa [Expr.tokenize_sourceText] at hreads ⊢

/-- A program that was read can be written, and its source text is read as the
    same program exactly if the parentheses in its texts match, group by group,
    and its calls are of the names that the source text declares, its variables
    of others. -/
theorem readProgram_sourceText_iff {s : String} {depth : Nat} {es : List Expr}
    (h : readProgram depth (tokenize s) = .ok es) :
    (∀ e ∈ es, e.written e.source = .ok e.source) ∧
      ∀ depth', (tokenize (Expr.sourceText es)).length < depth' →
        (readProgram depth' (tokenize (Expr.sourceText es)) = .ok es ↔
          Expr.everyAll Expr.closed es = true ∧
            Expr.everyAll (Expr.resolved (declaredNames (tokenize (Expr.sourceText es)))) es =
              true) := by
  have hlegible := legible_of_readProgram h
  refine ⟨fun e he => ?_, fun depth' hdepth => ⟨closed_of_readProgram_sourceText, ?_⟩⟩
  · have hwritable := Expr.writable_of_legible e (Expr.everyAll_iff.1 hlegible e he)
    rw [Expr.written, if_pos hwritable]
  · rw [← Expr.readsAll_tokensAll_iff (fun _ => isIdentifier_of_mem_declaredNames) hlegible,
      Expr.tokenize_sourceText]
    rw [Expr.tokenize_sourceText] at hdepth
    exact fun hreads => hreads.readAll depth' hdepth

/-- Parentheses in texts that match within their group do no harm. -/
theorem readProgram_sourceText_iff_matchedTexts :
    let es : List Expr :=
      [.defun "f" ["x"] [.part .car (.var "x")], .call "f" [.list [.str "( a", .str ")"]]]
    readProgram 20 (tokenize "(defun f (x) car x) f (list \" ( a \" \" ) \")") = .ok es ∧
      readProgram 40 (tokenize (Expr.sourceText es)) = .ok es := by
  have hread : readProgram 20 (tokenize "(defun f (x) car x) f (list \" ( a \" \" ) \")") =
      .ok [.defun "f" ["x"] [.part .car (.var "x")],
        .call "f" [.list [.str "( a", .str ")"]]] := by
    cbv
  refine ⟨hread, ((readProgram_sourceText_iff hread).2 40 (by decide +kernel)).2 ⟨?_, ?_⟩⟩
  · decide +kernel
  · decide +kernel

/-- Two programs that their source texts are not read as, with any budget: one
    with a parenthesis in a text, one with a call bound to a name `defun`. -/
theorem readProgram_sourceText_ne :
    (readProgram 9 (tokenize "list \" ) \"") = .ok [.list [.str ")"]] ∧
      ∀ depth, readProgram depth (tokenize (Expr.sourceText [.list [.str ")"]])) ≠
        .ok [.list [.str ")"]]) ∧
    (readProgram 9 (tokenize "(let ((defun f)) 2)") =
        .ok [.letIn [("defun", .call "f" [])] [.int 2]] ∧
      ∀ depth, readProgram depth
          (tokenize (Expr.sourceText [.letIn [("defun", .call "f" [])] [.int 2]])) ≠
        .ok [.letIn [("defun", .call "f" [])] [.int 2]]) := by
  refine ⟨⟨by cbv, fun depth h => ?_⟩, ⟨by cbv, fun depth h => ?_⟩⟩
  · -- The text closes the group that it is written in.
    exact absurd (closed_of_readProgram_sourceText h).1 (by decide +kernel)
  · -- The name `f` no longer follows the `defun`.
    exact absurd (closed_of_readProgram_sourceText h).2 (by decide +kernel)

end LazyLisp
