import LazyLisp.Program
import LazyLisp.Proofs.Reading.Stability

/-!
# Transcripts

A run of a source text ends as its evaluation does, and the text that is printed on the way
comes in three stages (`transcript_ofSource`): nothing as long as the source is not read, then
the tokens and the trees of the program, and then all the results, or none of them if one of
the expressions has no value. This is so whatever the limits of the run are.

Printing is what could come in between, as a tree with a number that exceeds the digit limit
cannot be printed. But the trees of a program can, since the numerals they were read from
are under the same limit (`writable_of_readSource`). For the results this has to be asked.
-/

namespace LazyLisp

/-- The text of a tree, with a line break after each of its lines. -/
def Style.treeText (style : Style) (e : Expr) : String :=
  String.join ((style.render 0 e).map (· ++ "\n"))

/-- The texts of trees, one after the other. -/
def Style.treesText (style : Style) (es : List Expr) : String :=
  String.join (es.map style.treeText)

/-- The text printed of a program before it is evaluated: a line of its tokens and its trees,
    each if asked for. -/
def Settings.shownText (settings : Settings) (tokens : List Token) (program : List Expr) :
    String :=
  (if settings.showTokens then joinTokens tokens ++ "\n" else "") ++
    if settings.showTree then settings.style.treesText program else ""

/-! ## Printing -/

/-- The lines of several trees have the texts of the trees. -/
theorem join_flatMap_render (style : Style) (es : List Expr) :
    String.join ((es.flatMap (style.render 0)).map (· ++ "\n")) = style.treesText es := by
  rw [Style.treesText]
  induction es with
  | nil => rfl
  | cons e es ih =>
    rw [List.flatMap_cons, List.map_append, String.join_append, ih, List.map_cons,
      String.join_cons, Style.treeText]

/-- The lines that are printed before the evaluation. -/
theorem join_shown (settings : Settings) (tokens : List Token) (program : List Expr) :
    String.join (((if settings.showTokens then [joinTokens tokens] else []) ++
        if settings.showTree then program.flatMap (settings.style.render 0) else []).map
          (· ++ "\n")) = settings.shownText tokens program := by
  rw [List.map_append, String.join_append, Settings.shownText]
  congr 1
  · split <;> simp
  · split
    · exact join_flatMap_render settings.style program
    · rfl

/-- Trees that can be written are printed, all of them. -/
theorem printTrees_of_writable (style : Style) {es : List Expr} (h : ∀ e ∈ es, e.writable = true) :
    printTrees style es = (es.flatMap (style.render 0), .ok ()) := by
  induction es with
  | nil => rfl
  | cons e es ih =>
    rw [List.forall_mem_cons] at h
    rw [printTrees, Expr.written, if_pos h.1, ih h.2, List.flatMap_cons]

/-- If one of the trees cannot be written, they are not all printed. -/
theorem printTrees_of_not_writable (style : Style) {es : List Expr} {e : Expr} (he : e ∈ es)
    (h : e.writable = false) : (printTrees style es).2 = .error .writing := by
  induction es with
  | nil => cases he
  | cons f es ih =>
    rw [printTrees, Expr.written]
    cases hf : f.writable with
    | false => rfl
    | true =>
      have hne : e ≠ f := fun heq => by simp [heq, hf] at h
      exact ih (List.mem_of_ne_of_mem hne he)

variable {source : String} {program : List Expr} {depth : Nat} {limits : Limits}

/-- Every tree of a program that was read can be written. -/
theorem writable_of_readSource (h : readSource source depth = .ok program) :
    ∀ e ∈ program, e.writable = true := by
  intro e he
  exact Expr.writable_of_legible e (Expr.everyAll_iff.1 (legible_of_readProgram h) e he)

theorem printTrees_of_readSource (h : readSource source depth = .ok program)
    (settings : Settings) :
    printTrees settings.style (if settings.showTree then program else []) =
      (if settings.showTree then program.flatMap (settings.style.render 0) else [], .ok ()) := by
  split
  · exact printTrees_of_writable settings.style (writable_of_readSource h)
  · rfl

/-! ## Stages -/

namespace Transcript

variable (settings : Settings)

/-- A text that is not read leaves nothing but the failure. -/
theorem ofSource_of_unread {cause : ReadError}
    (h : readSource source limits.reading = .error cause) :
    (ofSource settings source limits).values = .error (.reading cause) ∧
      (ofSource settings source limits).output = "" := by
  have hprogram : (Reading.ofSource source limits.reading).program = .error cause := h
  simp only [ofSource, hprogram, true_and]
  rfl

/-- A program that has no values is shown, and nothing else is printed. -/
theorem ofSource_of_stopped {stop : Stop} (h : readSource source limits.reading = .ok program)
    (hstop : (Execution.ofProgram program limits.evaluation).values = .error stop) :
    (ofSource settings source limits).values = .error (.running stop) ∧
      (ofSource settings source limits).output = settings.shownText (tokenize source) program := by
  have hprogram : (Reading.ofSource source limits.reading).program = .ok program := h
  simp only [ofSource, hprogram, printTrees_of_readSource h, hstop, true_and]
  exact join_shown settings (tokenize source) program

/-- A program whose values can be written is shown, and after it all the values. -/
theorem ofSource_of_values {values : List Expr}
    (h : readSource source limits.reading = .ok program)
    (hvalues : (Execution.ofProgram program limits.evaluation).values = .ok values)
    (hwritable : ∀ v ∈ values, v.writable = true) :
    (ofSource settings source limits).values = .ok values ∧
      (ofSource settings source limits).output =
        settings.shownText (tokenize source) program ++ settings.style.treesText values := by
  have hprogram : (Reading.ofSource source limits.reading).program = .ok program := h
  simp only [ofSource, hprogram, printTrees_of_readSource h, hvalues,
    printTrees_of_writable settings.style hwritable, true_and]
  rw [output, List.map_append, String.join_append, join_flatMap_render]
  exact congrArg (· ++ _) (join_shown settings (tokenize source) program)

/-- A program that has a value which cannot be written has its values, but not all of them
    are printed. -/
theorem ofSource_of_not_writable {values : List Expr}
    (h : readSource source limits.reading = .ok program)
    (hvalues : (Execution.ofProgram program limits.evaluation).values = .ok values) {v : Expr}
    (hv : v ∈ values) (hwritable : v.writable = false) :
    (ofSource settings source limits).values = .error (.printing .writing) := by
  have hprogram : (Reading.ofSource source limits.reading).program = .ok program := h
  have hprinted := printTrees_of_not_writable settings.style hv hwritable
  simp only [ofSource, hprogram, printTrees_of_readSource h, hvalues]
  rcases hlines : printTrees settings.style values with ⟨lines, cause | done⟩
  · rw [hlines] at hprinted
    cases hprinted
    rfl
  · rw [hlines] at hprinted
    cases hprinted

end Transcript

theorem evalSource_of_unread {cause : ReadError}
    (h : readSource source limits.reading = .error cause) :
    evalSource source limits = .error (.reading cause) := by
  have hprogram : (Reading.ofSource source limits.reading).program = .error cause := h
  rw [evalSource, hprogram]

theorem evalSource_of_read (h : readSource source limits.reading = .ok program) :
    evalSource source limits =
      (Execution.ofProgram program limits.evaluation).values.mapError .running := by
  have hprogram : (Reading.ofSource source limits.reading).program = .ok program := h
  rw [evalSource, hprogram]

/-- A run whose results can be written ends as the evaluation of the source text, with the
    same values or the same failure. If the text was not read, nothing is printed; if an
    expression has no value, the program is shown as the settings ask for, and no result of it;
    and otherwise all the results are printed after it, in order. -/
theorem transcript_ofSource (settings : Settings) (source : String) (limits : Limits)
    (hwritable : ∀ values, evalSource source limits = .ok values →
      ∀ v ∈ values, v.writable = true) :
    (Transcript.ofSource settings source limits).values = evalSource source limits ∧
      (∀ cause, readSource source limits.reading = .error cause →
        (Transcript.ofSource settings source limits).output = "") ∧
      ∀ program, readSource source limits.reading = .ok program →
        (∀ failure, evalSource source limits = .error failure →
          (Transcript.ofSource settings source limits).output =
            settings.shownText (tokenize source) program) ∧
        ∀ values, evalSource source limits = .ok values →
          (Transcript.ofSource settings source limits).output =
            settings.shownText (tokenize source) program ++ settings.style.treesText values := by
  cases hread : readSource source limits.reading with
  | error cause =>
    obtain ⟨hvalues, houtput⟩ := Transcript.ofSource_of_unread settings hread
    exact ⟨hvalues.trans (evalSource_of_unread hread).symm, fun _ _ => houtput, by simp⟩
  | ok program =>
    rw [evalSource_of_read hread] at hwritable ⊢
    cases hrun : (Execution.ofProgram program limits.evaluation).values with
    | error stop =>
      obtain ⟨hvalues, houtput⟩ := Transcript.ofSource_of_stopped settings hread hrun
      refine ⟨hvalues, by simp, ?_⟩
      rintro _ ⟨⟩
      exact ⟨fun _ _ => houtput, by simp [Except.mapError]⟩
    | ok values =>
      rw [hrun] at hwritable
      obtain ⟨hvalues, houtput⟩ :=
        Transcript.ofSource_of_values settings hread hrun (hwritable values rfl)
      refine ⟨hvalues, by simp, ?_⟩
      rintro _ ⟨⟩
      refine ⟨by simp [Except.mapError], ?_⟩
      rintro _ ⟨⟩
      exact houtput

/-- A program of which the second expression has no value is shown, without the result of
    the first; without the second, the result is printed after it. -/
theorem transcript_ofSource_stopped :
    let settings : Settings := ⟨⟨" ", false⟩, "WARNING", true, true⟩
    let limits : Limits := ⟨9, 9⟩
    evalSource "(+ 1 2) x" limits = .error (.running (.error (.unknownReference "x"))) ∧
      (Transcript.ofSource settings "(+ 1 2) x" limits).values =
        .error (.running (.error (.unknownReference "x"))) ∧
      (Transcript.ofSource settings "(+ 1 2) x" limits).output =
        "( + 1 2 ) x\nAdd\n Int(1)\n Int(2)\nVariable(x)\n" ∧
      evalSource "(+ 1 2)" limits = .ok [.int 3] ∧ (Expr.int 3).writable = true ∧
      (Transcript.ofSource settings "(+ 1 2)" limits).values = .ok [.int 3] ∧
      (Transcript.ofSource settings "(+ 1 2)" limits).output =
        "( + 1 2 )\nAdd\n Int(1)\n Int(2)\nInt(3)\n" := by
  intro settings limits
  have hread : readSource "(+ 1 2) x" limits.reading =
      .ok [.apply .add [.int 1, .int 2], .var "x"] := by
    unfold limits
    cbv
  have hfail : evalSource "(+ 1 2) x" limits =
      .error (.running (.error (.unknownReference "x"))) := by
    unfold limits
    cbv
  have hstopped := transcript_ofSource settings "(+ 1 2) x" limits (by simp [hfail])
  have hread' : readSource "(+ 1 2)" limits.reading = .ok [.apply .add [.int 1, .int 2]] := by
    unfold limits
    cbv
  have hvalue : evalSource "(+ 1 2)" limits = .ok [.int 3] := by
    unfold limits
    cbv
  have hwritable : (Expr.int 3).writable = true := by decide +kernel
  have hprinted := transcript_ofSource settings "(+ 1 2)" limits (by simp [hvalue, hwritable])
  refine ⟨hfail, hstopped.1.trans hfail, ?_, hvalue, hwritable, hprinted.1.trans hvalue, ?_⟩
  · rw [(hstopped.2.2 _ hread).1 _ hfail]
    rfl
  · rw [(hprinted.2.2 _ hread').2 _ hvalue]
    rfl

end LazyLisp
