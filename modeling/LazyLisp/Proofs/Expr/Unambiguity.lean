import LazyLisp.Expr.Outline
import LazyLisp.Expr.Writable
import LazyLisp.Proofs.Expr.Every
import LazyLisp.Proofs.Reading.Nodes
import LazyLisp.Proofs.Reading.Numerals

/-!
# Outlines are unambiguous

An outline is flat: there is a line for each node, and nothing but the indentation of the line
says where in the tree the node stands. The tree is determined all the same
(`render_unambiguous`), for three reasons.

* The label of a node tells what node it is, given what stands below it (`Expr.eq_of_label_eq`).
  It starts with a word for the kind of the node, which is never the word for a binding, and the
  names after it can be told apart as long as those of functions and parameters are identifiers.
* An indentation has no letters, and a label starts with one, so that a line is not taken for
  one that stands deeper (`Style.label_ne_indent_append`).
* What stands below a node is all that follows it, up to the first line that stands no deeper
  (`Style.determines`).
-/

namespace LazyLisp

/-! ## Texts -/

/-- There is one way only to cut a text where the characters of one sort end. -/
theorem append_inj_of_sort {p : Char → Bool} {a b s t : String} (ha : a.toList.all p = true)
    (hb : b.toList.all p = true) (hs : s.toList.head?.any p = false)
    (ht : t.toList.head?.any p = false) (h : a ++ s = b ++ t) : a = b ∧ s = t := by
  have htake {a s : String} (ha : a.toList.all p = true) (hs : s.toList.head?.any p = false) :
      (a ++ s).toList.takeWhile p = a.toList := by
    rw [String.toList_append, List.takeWhile_append_of_pos (List.all_eq_true.1 ha)]
    cases hcs : s.toList with
    | nil => simp
    | cons c cs =>
      rw [hcs] at hs
      simp_all
  obtain rfl : a = b := by
    rw [← String.toList_inj, ← htake ha hs, h, htake hb ht]
  exact ⟨rfl, (String.append_right_inj a).1 h⟩

theorem between_inj {a x y b : String} (h : a ++ x ++ b = a ++ y ++ b) : x = y :=
  (String.append_right_inj a).1 ((String.append_left_inj b).1 h)

theorem all_isNameChar_of_isIdentifier {x : String} (h : isIdentifier x = true) :
    x.toList.all isNameChar = true :=
  (Bool.and_eq_true_iff.1 h).2

/-- After a name of a list comes nothing, or a comma, which no name has. -/
theorem join_comma_head (xs : List String) :
    (String.join (xs.map (", " ++ ·))).toList.head?.any isNameChar = false := by
  cases xs with
  | nil => rfl
  | cons x xs => simp [isNameChar]

theorem join_comma_inj {xs ys : List String} (hxs : ∀ x ∈ xs, isIdentifier x = true)
    (hys : ∀ y ∈ ys, isIdentifier y = true)
    (h : String.join (xs.map (", " ++ ·)) = String.join (ys.map (", " ++ ·))) : xs = ys := by
  induction xs generalizing ys with
  | nil =>
    cases ys with
    | nil => rfl
    | cons y ys => simp [← String.toList_inj] at h
  | cons x xs ih =>
    cases ys with
    | nil => simp [← String.toList_inj] at h
    | cons y ys =>
      rw [List.forall_mem_cons] at hxs hys
      simp only [List.map_cons, String.join_cons, String.append_assoc,
        String.append_right_inj] at h
      obtain ⟨rfl, hrest⟩ := append_inj_of_sort (all_isNameChar_of_isIdentifier hxs.1)
        (all_isNameChar_of_isIdentifier hys.1) (join_comma_head xs) (join_comma_head ys) h
      rw [ih hxs.2 hys.2 hrest]

theorem join_comma_cons (x : String) (xs : List String) :
    String.join ((x :: xs).map (", " ++ ·)) = ", " ++ ", ".intercalate (x :: xs) := by
  induction xs generalizing x with
  | nil => simp
  | cons y xs ih =>
    rw [List.map_cons, String.join_cons, ih, String.intercalate_cons_cons, String.append_assoc,
      String.append_assoc]

/-- A list of names, separated by commas, tells the names. -/
theorem intercalate_comma_inj {xs ys : List String} (hxs : ∀ x ∈ xs, isIdentifier x = true)
    (hys : ∀ y ∈ ys, isIdentifier y = true) (h : ", ".intercalate xs = ", ".intercalate ys) :
    xs = ys := by
  have hne {x : String} {xs : List String} (hx : isIdentifier x = true) :
      ", ".intercalate (x :: xs) ≠ "" := by
    have hempty : x ≠ "" := by
      rintro rfl
      simp [isIdentifier] at hx
    cases xs <;> simp [hempty]
  cases xs with
  | nil =>
    cases ys with
    | nil => rfl
    | cons y ys => exact absurd h.symm (hne (hys y List.mem_cons_self))
  | cons x xs =>
    cases ys with
    | nil => exact absurd h (hne (hxs x List.mem_cons_self))
    | cons y ys => exact join_comma_inj hxs hys (by rw [join_comma_cons, join_comma_cons, h])

theorem decimal_inj {m n : Int} (h : decimal m = decimal n) : m = n := by
  rw [← numeralValue_decimal m, h, numeralValue_decimal]

theorem boolText_inj {a b : Bool} (h : Expr.boolText a = Expr.boolText b) : a = b := by
  cases a <;> cases b <;> simp_all [Expr.boolText]

/-! ## Labels -/

/-- The kinds of lines in an outline. -/
inductive Kind
  | int
  | bool
  | str
  | var
  | list
  | part (which : Part)
  | apply (op : Op)
  | ite
  | letIn
  | call
  | defun
  | empty
  | deferred
  | binding
  deriving DecidableEq

namespace Kind

/-- The word that the lines of a kind start with. -/
def title : Kind → String
  | int => "Int"
  | bool => "Bool"
  | str => "String"
  | var => "Variable"
  | list => "List"
  | part which => which.title
  | apply op => op.title
  | ite => "If"
  | letIn => "Let"
  | call => "Call"
  | defun => "FunctionDef"
  | empty => "Empty"
  | deferred => "Deferred"
  | binding => "Binding"

/-- All kinds of lines. -/
def all : List Kind :=
  [int, bool, str, var, list, part .car, part .cdr, apply .equal, apply .add, apply .multiply,
    apply .subtract, apply .divide, ite, letIn, call, defun, empty, deferred, binding]

theorem mem_all (k : Kind) : k ∈ all := by
  cases k with
  | part which => cases which <;> decide
  | apply op => cases op <;> decide
  | _ => decide

theorem title_inj {k l : Kind} (h : k.title = l.title) : k = l := by
  have hnodup : (all.map title).Nodup := by decide
  exact List.inj_on_of_nodup_map hnodup (mem_all k) (mem_all l) h

theorem title_isAlpha (k : Kind) : k.title.toList.all Char.isAlpha = true := by
  have hall : all.all (fun k => k.title.toList.all Char.isAlpha) = true := by decide
  exact List.all_eq_true.1 hall k (mem_all k)

theorem title_ne_empty (k : Kind) : k.title ≠ "" := by
  have hall : all.all (fun k => k.title != "") = true := by decide
  exact bne_iff_ne.1 (List.all_eq_true.1 hall k (mem_all k))

end Kind

namespace Expr

/-- The kind of the line of a node. -/
def kind : Expr → Kind
  | int _ => .int
  | bool _ => .bool
  | str _ => .str
  | var _ => .var
  | list _ => .list
  | part which _ => .part which
  | apply op _ => .apply op
  | ite _ _ _ => .ite
  | letIn _ _ => .letIn
  | call _ _ => .call
  | defun _ _ _ => .defun
  | empty => .empty
  | deferred _ _ => .deferred

/-- What follows the first word in the label of a node. -/
def detail : Expr → String
  | int n => "(" ++ decimal n ++ ")"
  | bool b => "(" ++ boolText b ++ ")"
  | str t => "(\"" ++ t ++ "\")"
  | var x => "(" ++ x ++ ")"
  | call f _ => "(" ++ f ++ ")"
  | defun f ps _ => "(" ++ (f ++ (", params=[" ++ ", ".intercalate ps ++ "])"))
  | _ => ""

theorem label_eq (e : Expr) : e.label = e.kind.title ++ e.detail := by
  rw [label.eq_def]
  cases e <;> simp [kind, Kind.title, detail, ← String.append_assoc]

theorem detail_head (e : Expr) : e.detail.toList.head?.any Char.isAlpha = false := by
  cases e <;> simp [detail]

/-- The label of the node tells all its names apart: those of a function and its parameters are
    identifiers, and nothing is deferred. -/
def definite : Expr → Bool
  | defun f ps _ => isIdentifier f && ps.all isIdentifier
  | deferred _ _ => false
  | _ => true

/-- What stands below a node in an outline: trees, and those that a `let` binds with their
    names. -/
def entries : Expr → List (Option String × Expr)
  | letIn bs es => bs.map (fun b => (some b.1, b.2)) ++ es.map (fun e => (none, e))
  | e => e.children.map (fun e => (none, e))

/-- Induction over the entries below the nodes of a tree. -/
theorem entryInduction {motive : Expr → Prop}
    (node : ∀ e, (∀ entry ∈ e.entries, motive entry.2) → motive e) (e : Expr) : motive e := by
  induction e with
  | int _ | bool _ | str _ | var _ | empty | deferred _ _ _ =>
    exact node _ (by simp [entries, children])
  | list es ih | apply o es ih | call f es ih | defun f ps es ih =>
    exact node _ (by simpa [entries, children] using ih)
  | part w e ih => exact node _ (by simpa [entries, children] using ih)
  | ite c t e ihc iht ihe => exact node _ (by simp [entries, children, ihc, iht, ihe])
  | letIn bs es ihbs ihes =>
    refine node _ fun entry hentry => ?_
    simp only [entries, List.mem_append, List.mem_map] at hentry
    obtain ⟨b, hb, rfl⟩ | ⟨e, he, rfl⟩ := hentry
    · exact ihbs b hb
    · exact ihes e he

theorem every_of_mem_entries {p : Expr → Bool} {e : Expr} (h : e.every p = true)
    {entry : Option String × Expr} (hentry : entry ∈ e.entries) : entry.2.every p = true := by
  cases e with
  | int _ | bool _ | str _ | var _ | empty | deferred _ _ => simp [entries, children] at hentry
  | list es | apply o es | call f es | defun f ps es =>
    simp only [every, Bool.and_eq_true, everyAll_iff] at h
    obtain ⟨e, he, rfl⟩ := List.mem_map.1 hentry
    exact h.2 e he
  | part w e =>
    simp only [every, Bool.and_eq_true] at h
    obtain rfl := List.mem_singleton.1 hentry
    exact h.2
  | ite c t e =>
    simp only [every, Bool.and_eq_true] at h
    simp only [entries, children, List.map_cons, List.map_nil, List.mem_cons, List.not_mem_nil,
      or_false] at hentry
    obtain rfl | rfl | rfl := hentry
    · exact h.2.1.1
    · exact h.2.1.2
    · exact h.2.2
  | letIn bs es =>
    simp only [every, Bool.and_eq_true, everyAll_iff, everyBound_iff] at h
    simp only [entries, List.mem_append, List.mem_map] at hentry
    obtain ⟨b, hb, rfl⟩ | ⟨e, he, rfl⟩ := hentry
    · exact h.2.1 b hb
    · exact h.2.2 e he

theorem map_none_inj {es fs : List Expr}
    (h : es.map (fun e => ((none : Option String), e)) = fs.map (fun e => (none, e))) : es = fs :=
  List.map_injective_iff.2 (Prod.mk_right_injective none) h

theorem entries_letIn_inj {bs cs : List (String × Expr)} {es fs : List Expr}
    (h : (letIn bs es).entries = (letIn cs fs).entries) : bs = cs ∧ es = fs := by
  have hbound (bs : List (String × Expr)) (es : List Expr) :
      (letIn bs es).entries.filterMap (fun entry => entry.1.map (·, entry.2)) = bs := by
    simp [entries, List.filterMap_append, List.filterMap_map]
  obtain rfl : bs = cs := by rw [← hbound bs es, h, hbound]
  exact ⟨rfl, map_none_inj (List.append_cancel_left h)⟩

/-- A node is determined by its label and by what stands below it. -/
theorem eq_of_label_eq {e f : Expr} (he : e.definite = true) (hf : f.definite = true)
    (hlabel : e.label = f.label) (hentries : e.entries = f.entries) : e = f := by
  rw [label_eq, label_eq] at hlabel
  obtain ⟨htitle, hdetail⟩ := append_inj_of_sort (Kind.title_isAlpha _) (Kind.title_isAlpha _)
    (detail_head e) (detail_head f) hlabel
  -- The first word tells the kind of the node, so that two nodes of one kind remain.
  have hkind := Kind.title_inj htitle
  cases e <;> cases f <;> cases hkind
  case int.int m n => rw [decimal_inj (between_inj hdetail)]
  case bool.bool a b => rw [boolText_inj (between_inj hdetail)]
  case str.str s t | var.var s t =>
    have hname : s = t := between_inj hdetail
    rw [hname]
  case list.list es fs | apply.apply es fs =>
    have hes : es = fs := map_none_inj hentries
    rw [hes]
  case part.part e f =>
    have hes : [e] = [f] := map_none_inj hentries
    rw [List.singleton_inj.1 hes]
  case ite.ite c t e c' t' e' =>
    have hes : [c, t, e] = [c', t', e'] := map_none_inj hentries
    simpa using hes
  case letIn.letIn bs es cs fs =>
    obtain ⟨rfl, rfl⟩ := entries_letIn_inj hentries
    rfl
  case call.call f es g fs =>
    have hname : f = g := between_inj hdetail
    have hes : es = fs := map_none_inj hentries
    rw [hname, hes]
  case defun.defun f ps es g qs fs =>
    rw [definite, Bool.and_eq_true, List.all_eq_true] at he hf
    -- The name ends at the comma, and the parameters are between the brackets.
    obtain ⟨rfl, hparameters⟩ := append_inj_of_sort (all_isNameChar_of_isIdentifier he.1)
      (all_isNameChar_of_isIdentifier hf.1) (by simp [isNameChar]) (by simp [isNameChar])
      ((String.append_right_inj "(").1 hdetail)
    have hes : es = fs := map_none_inj hentries
    rw [intercalate_comma_inj he.2 hf.2 (between_inj hparameters), hes]
  case empty.empty => rfl
  case deferred.deferred => simp [definite] at he

end Expr

/-! ## Lines -/

theorem bindingLabel_eq (x : String) :
    "Binding(" ++ x ++ ")" = Kind.binding.title ++ ("(" ++ x ++ ")") := by
  simp [Kind.title, ← String.append_assoc]

/-- The line of a binding is not that of a node. -/
theorem bindingLabel_ne_label (x : String) (e : Expr) : "Binding(" ++ x ++ ")" ≠ e.label := by
  intro h
  rw [bindingLabel_eq, Expr.label_eq] at h
  have hkind := Kind.title_inj (append_inj_of_sort (Kind.title_isAlpha _) (Kind.title_isAlpha _)
    (by simp) e.detail_head h).1
  cases e <;> cases hkind

namespace Style

/-- Lines are printed without colour, and what stands before them for each level of their depth
    is not empty and has no letters, as with blanks of any sort. -/
structure IsPlain (style : Style) : Prop where
  color : style.color = false
  indent_ne : style.indent ≠ ""
  indent_isAlpha : ∀ c ∈ style.indent.toList, c.isAlpha = false

/-- The lines of a tree with its root at the given depth. -/
def lines (style : Style) (depth : Nat) (e : Expr) : List String :=
  (e.outline depth).map (style.renderLine 0)

/-- The lines of an entry: those of the tree, one level below the line of its name if it has
    one. -/
def entryLines (style : Style) (depth : Nat) : Option String × Expr → List String
  | (some x, e) => (style.pad depth ++ ("Binding(" ++ x ++ ")")) :: style.lines (depth + 1) e
  | (none, e) => style.lines depth e

variable {style : Style}

theorem pad_succ (style : Style) (depth : Nat) :
    style.pad (depth + 1 : Nat) = style.pad depth ++ style.indent := by
  simp [pad, List.replicate_succ']

theorem renderLine_eq (h : style.IsPlain) (line : Line) :
    style.renderLine 0 line = style.pad line.depth ++ line.text := by
  simp [renderLine, h.color]

theorem map_outlineAll (depth : Nat) (es : List Expr) :
    (Expr.outlineAll depth es).map (style.renderLine 0) =
      (es.map fun e => (none, e)).flatMap (style.entryLines depth) := by
  induction es with
  | nil => rfl
  | cons e es ih =>
    rw [Expr.outlineAll, List.map_append, ih, List.map_cons, List.flatMap_cons]
    rfl

theorem map_outlineBindings (h : style.IsPlain) (depth : Nat) (bs : List (String × Expr)) :
    (Expr.outlineBindings depth bs).map (style.renderLine 0) =
      (bs.map fun b => (some b.1, b.2)).flatMap (style.entryLines (depth + 1)) := by
  induction bs with
  | nil => rfl
  | cons b bs ih =>
    obtain ⟨x, e⟩ := b
    rw [Expr.outlineBindings, List.map_cons, List.map_append, ih, renderLine_eq h, List.map_cons,
      List.flatMap_cons]
    rfl

/-- The lines of a tree are that of its root, and those of the entries below it. -/
theorem lines_eq (h : style.IsPlain) (depth : Nat) (e : Expr) :
    style.lines depth e =
      (style.pad depth ++ e.label) :: e.entries.flatMap (style.entryLines (depth + 1)) := by
  have hline (e : Expr) : style.renderLine 0 (e.line depth) = style.pad depth ++ e.label :=
    renderLine_eq h _
  cases e with
  | int _ | bool _ | str _ | var _ | empty | deferred _ _ =>
    rw [lines, Expr.outline, List.map_cons, hline]
    rfl
  | list es | apply o es | call f es | defun f ps es =>
    rw [lines, Expr.outline, List.map_cons, hline, map_outlineAll]
    rfl
  | part w e =>
    rw [lines, Expr.outline, List.map_cons, hline]
    simp [Expr.entries, Expr.children, entryLines, lines]
  | ite c t e =>
    rw [lines, Expr.outline, List.map_cons, hline]
    simp [Expr.entries, Expr.children, entryLines, lines]
  | letIn bs es =>
    rw [lines, Expr.outline, List.map_cons, hline, List.map_append, map_outlineAll,
      map_outlineBindings h, Expr.entries, List.flatMap_append]

/-- A line is not taken for one that stands deeper: it starts with a letter where that is
    indented. -/
theorem label_ne_indent_append (h : style.IsPlain) (k : Kind) (detail text : String) :
    k.title ++ detail ≠ style.indent ++ text := by
  intro heq
  obtain ⟨c, cs, hc⟩ : ∃ c cs, k.title.toList = c :: cs :=
    List.exists_cons_of_ne_nil (by simpa using k.title_ne_empty)
  obtain ⟨d, ds, hd⟩ : ∃ d ds, style.indent.toList = d :: ds :=
    List.exists_cons_of_ne_nil (by simpa using h.indent_ne)
  have hcd : c = d := by
    have hlist := congrArg String.toList heq
    rw [String.toList_append, String.toList_append, hc, hd] at hlist
    exact (List.cons.inj hlist).1
  have halpha : c.isAlpha = true := List.all_eq_true.1 k.title_isAlpha c (by simp [hc])
  rw [hcd, h.indent_isAlpha d (by simp [hd])] at halpha
  cases halpha

/-- The first of the lines, if there is any, is not indented deeper than to the given depth. -/
def StopsAt (style : Style) (depth : Nat) (lines : List String) : Prop :=
  ∀ line ∈ lines.head?, ∀ text, line ≠ style.pad (depth + 1 : Nat) ++ text

theorem stopsAt_nil (depth : Nat) : style.StopsAt depth [] := by simp [StopsAt]

theorem StopsAt.succ {depth : Nat} {rest : List String} (h : style.StopsAt depth rest) :
    style.StopsAt (depth + 1) rest := by
  intro line hline text
  rw [pad_succ, String.append_assoc]
  exact h line hline _

/-- An entry starts with a line at its depth. -/
theorem exists_entryLines (h : style.IsPlain) (depth : Nat) (entry : Option String × Expr) :
    ∃ k detail rest,
      style.entryLines depth entry = (style.pad depth ++ (Kind.title k ++ detail)) :: rest := by
  obtain ⟨_ | x, e⟩ := entry
  · exact ⟨e.kind, e.detail, _, by rw [entryLines, lines_eq h, Expr.label_eq]⟩
  · exact ⟨.binding, _, _, by rw [entryLines, bindingLabel_eq]⟩

theorem stopsAt_entries (h : style.IsPlain) {depth : Nat} {rest : List String}
    (hrest : style.StopsAt depth rest) (entries : List (Option String × Expr)) :
    style.StopsAt (depth + 1) (entries.flatMap (style.entryLines (depth + 1)) ++ rest) := by
  cases entries with
  | nil => exact hrest.succ
  | cons entry entries =>
    obtain ⟨k, detail, more, hlines⟩ := exists_entryLines h (depth + 1) entry
    intro line hline text
    rw [List.flatMap_cons, hlines] at hline
    obtain rfl := Option.some.inj hline
    rw [pad_succ _ (depth + 1), String.append_assoc, Ne, String.append_right_inj]
    exact label_ne_indent_append h k detail text

theorem StopsAt.ne_entries (h : style.IsPlain) {depth : Nat} {rest : List String}
    (hrest : style.StopsAt depth rest) (entry : Option String × Expr)
    (entries : List (Option String × Expr)) (rest' : List String) :
    rest ≠ (entry :: entries).flatMap (style.entryLines (depth + 1)) ++ rest' := by
  obtain ⟨k, detail, more, hlines⟩ := exists_entryLines h (depth + 1) entry
  rw [List.flatMap_cons, hlines]
  rintro rfl
  exact hrest _ rfl _ rfl

/-- The tree is determined by its lines, whatever comes after them that stands no deeper. -/
def Determines (style : Style) (e : Expr) : Prop :=
  ∀ {depth : Nat} {f : Expr} {rest rest' : List String}, f.every Expr.definite = true →
    style.StopsAt depth rest → style.StopsAt depth rest' →
    style.lines depth e ++ rest = style.lines depth f ++ rest' → e = f ∧ rest = rest'

theorem entry_append_inj (h : style.IsPlain) {depth : Nat} {a b : Option String × Expr}
    {rest rest' : List String} (ha : style.Determines a.2) (hb : b.2.every Expr.definite = true)
    (hrest : style.StopsAt depth rest) (hrest' : style.StopsAt depth rest')
    (heq : style.entryLines depth a ++ rest = style.entryLines depth b ++ rest') :
    a = b ∧ rest = rest' := by
  obtain ⟨_ | x, e⟩ := a <;> obtain ⟨_ | y, f⟩ := b
  · obtain ⟨rfl, hrests⟩ := ha hb hrest hrest' heq
    exact ⟨rfl, hrests⟩
  · -- An entry with a name and one without differ in their first lines.
    rw [entryLines, entryLines, lines_eq h] at heq
    have hline := (String.append_right_inj _).1 (List.cons.inj heq).1
    exact absurd hline.symm (bindingLabel_ne_label y e)
  · rw [entryLines, entryLines, lines_eq h _ f] at heq
    have hline := (String.append_right_inj _).1 (List.cons.inj heq).1
    exact absurd hline (bindingLabel_ne_label x f)
  · obtain ⟨hline, hlines⟩ := List.cons.inj heq
    obtain ⟨rfl, hrests⟩ := ha hb hrest.succ hrest'.succ hlines
    have hname : x = y := between_inj ((String.append_right_inj _).1 hline)
    exact ⟨by rw [hname], hrests⟩

theorem entries_append_inj (h : style.IsPlain) {depth : Nat} {as bs : List (Option String × Expr)}
    {rest rest' : List String} (has : ∀ a ∈ as, style.Determines a.2)
    (hbs : ∀ b ∈ bs, b.2.every Expr.definite = true) (hrest : style.StopsAt depth rest)
    (hrest' : style.StopsAt depth rest')
    (heq : as.flatMap (style.entryLines (depth + 1)) ++ rest =
      bs.flatMap (style.entryLines (depth + 1)) ++ rest') : as = bs ∧ rest = rest' := by
  induction as generalizing bs with
  | nil =>
    cases bs with
    | nil => exact ⟨rfl, heq⟩
    | cons b bs => exact absurd heq (hrest.ne_entries h b bs rest')
  | cons a as ih =>
    cases bs with
    | nil => exact absurd heq.symm (hrest'.ne_entries h a as rest)
    | cons b bs =>
      rw [List.forall_mem_cons] at has hbs
      rw [List.flatMap_cons, List.flatMap_cons, List.append_assoc, List.append_assoc] at heq
      obtain ⟨rfl, hmore⟩ := entry_append_inj h has.1 hbs.1 (stopsAt_entries h hrest as)
        (stopsAt_entries h hrest' bs) heq
      obtain ⟨rfl, hrests⟩ := ih has.2 hbs.2 hmore
      exact ⟨rfl, hrests⟩

/-- Every tree is determined by its lines: by induction over the entries below the nodes, as what
    comes after an entry is the next one at its depth, or stands no deeper than the node. -/
theorem determines (h : style.IsPlain) {e : Expr} (he : e.every Expr.definite = true) :
    style.Determines e := by
  induction e using Expr.entryInduction with
  | node e ih =>
    intro depth f rest rest' hf hrest hrest' heq
    rw [lines_eq h, lines_eq h] at heq
    obtain ⟨hline, hlines⟩ := List.cons.inj heq
    obtain ⟨hentries, hrests⟩ := entries_append_inj h
      (fun a ha => ih a ha (Expr.every_of_mem_entries he ha))
      (fun b hb => Expr.every_of_mem_entries hf hb) hrest hrest' hlines
    have hlabel := (String.append_right_inj _).1 hline
    exact ⟨Expr.eq_of_label_eq (Expr.every_self he) (Expr.every_self hf) hlabel hentries, hrests⟩

end Style

theorem ReadNode.definite {F : List String} {W : List Token → Prop} {e : Expr}
    (h : ReadNode F W e) : e.definite = true := by
  cases h with
  | defun hname hparameters _ => simpa [Expr.definite, hname] using hparameters
  | _ => rfl

/-- Two trees whose integers can be written are printed, and they are printed as the same lines
    only if they are one tree. Texts and the names of variables and callees may be any at all;
    those of functions and parameters are identifiers, as they are in every tree that is read. -/
theorem render_unambiguous {style : Style} (hstyle : style.IsPlain) :
    (∀ e f : Expr, e.every Expr.definite = true → f.every Expr.definite = true →
      e.writable = true → f.writable = true →
        ∃ lines lines', e.written (style.render 0 e) = .ok lines ∧
          f.written (style.render 0 f) = .ok lines' ∧ (lines = lines' ↔ e = f)) ∧
      ∀ F depth ts e rest, readExpr F depth ts = .ok (e, rest) →
        e.every Expr.definite = true := by
  constructor
  · intro e f he hf hewritable hfwritable
    refine ⟨style.render 0 e, style.render 0 f, if_pos hewritable, if_pos hfwritable, ?_, ?_⟩
    · intro hlines
      have hnil : style.StopsAt 0 [] := Style.stopsAt_nil 0
      exact (Style.determines hstyle he hf hnil hnil (congrArg (· ++ []) hlines)).1
    · rintro rfl
      rfl
  · intro F depth ts e rest h
    have hruns : EveryRun (fun _ => True) ts := fun _ _ => trivial
    exact (reads_of_readExpr h).every (fun _ hnode => hnode.definite) hruns

/-- Trees with the same labels in the same order, some with parentheses and line breaks in them,
    that differ in the place of a single element; wide blanks stand before the lines. -/
theorem render_unambiguous_elementOfBody :
    let style : Style := { indent := "\u3000\t" }
    let e : Expr := .letIn [("x)", .list [.str "\")\nInt(1", .int (-1)])] [.var "x)"]
    let f : Expr := .letIn [("x)", .list [.str "\")\nInt(1"])] [.int (-1), .var "x)"]
    (style.IsPlain ∧ e.every Expr.definite = true ∧ f.every Expr.definite = true ∧
        e.writable = true ∧ f.writable = true) ∧
      ∃ lines lines', e.written (style.render 0 e) = .ok lines ∧
        f.written (style.render 0 f) = .ok lines' ∧ lines ≠ lines' := by
  intro style e f
  have hstyle : style.IsPlain := ⟨rfl, by simp [style], by simp [style]⟩
  have hwritable : e.writable = true ∧ f.writable = true := by decide
  have hne : e ≠ f := by simp [e, f]
  obtain ⟨lines, lines', he, hf, hlines⟩ :=
    (render_unambiguous hstyle).1 e f rfl rfl hwritable.1 hwritable.2
  exact ⟨⟨hstyle, rfl, rfl, hwritable⟩, lines, lines', he, hf, fun heq => hne (hlines.1 heq)⟩

end LazyLisp
