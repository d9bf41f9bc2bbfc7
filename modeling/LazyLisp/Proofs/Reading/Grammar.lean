import LazyLisp.Expr.Reader
import LazyLisp.Proofs.Reading.Balance

/-!
# The grammar of expressions

What the reader accepts, as a relation between tokens and the expressions they
are read as. `Reads F ts e rest` says that an expression stands at the front of
the tokens `ts`, that it is `e`, and that the tokens `rest` are left over, where
`F` are the names of the functions. The relation knows neither a budget for the
nesting depth nor how a group is searched for: what is said about all readable
texts is proved by induction on it.

* `reads_cons_iff`: the grammar by what the first token announces;
* `reads_of_readExpr`: what is read conforms to the grammar;
* `Reads.readExpr`: what conforms to the grammar is read, with a budget that
  exceeds the number of the tokens taken.
-/

namespace LazyLisp

/-! ## Heads -/

/-- A token that announces something of its own, whatever the functions are
    called: an opening delimiter, a keyword or a truth value. -/
def isReserved (token : Token) : Bool :=
  token = "(" || token = "\"" || (keywords.lookup token).isSome || token = "true" ||
    token = "false"

variable {F : List String}

section Heads

variable {t : Token}

theorem headOf_of_not_isReserved (h : isReserved t = false) :
    Head.of F t = if t ∈ F then .call else if isNumeral t then .numeral
      else if isIdentifier t then .name else .unknown := by
  simp only [isReserved, Bool.or_eq_false_iff, decide_eq_false_iff_not, Option.isSome_eq_false_iff,
    Option.isNone_iff_eq_none] at h
  simp [Head.of, h]

theorem headOf_of_isReserved (h : isReserved t = true) :
    Head.of F t = .group ∨ Head.of F t = .quotation ∨ (∃ keyword, Head.of F t = .form keyword) ∨
      ∃ b, Head.of F t = .bool b := by
  unfold isReserved Head.of at *
  grind

theorem headOf_eq_iff {head : Head} (hhead : head = .call ∨ head = .numeral ∨ head = .name) :
    Head.of F t = head ↔ isReserved t = false ∧
      (if t ∈ F then .call else if isNumeral t then .numeral
        else if isIdentifier t then .name else .unknown) = head := by
  cases h : isReserved t with
  | true =>
    have hne : Head.of F t ≠ head := by
      rcases headOf_of_isReserved (F := F) h with h | h | ⟨_, h⟩ | ⟨_, h⟩ <;> rw [h] <;>
        rcases hhead with rfl | rfl | rfl <;> simp
    simp [hne]
  | false => simp [headOf_of_not_isReserved h]

/-- A call starts with the name of a function. -/
theorem headOf_eq_call_iff : Head.of F t = .call ↔ isReserved t = false ∧ t ∈ F := by
  rw [headOf_eq_iff (.inl rfl)]
  grind

theorem headOf_eq_numeral_iff :
    Head.of F t = .numeral ↔ isReserved t = false ∧ t ∉ F ∧ isNumeral t = true := by
  rw [headOf_eq_iff (.inr (.inl rfl))]
  grind

/-- A reference is to a name that no function has. -/
theorem headOf_eq_name_iff : Head.of F t = .name ↔
    isReserved t = false ∧ t ∉ F ∧ isNumeral t = false ∧ isIdentifier t = true := by
  rw [headOf_eq_iff (.inr (.inr rfl))]
  grind

theorem headOf_eq_group_iff : Head.of F t = .group ↔ t = "(" := by
  unfold Head.of
  grind

theorem headOf_eq_defun_iff : Head.of F t = .form .defun ↔ t = "defun" := by
  constructor
  · intro h
    have hlookup : keywords.lookup t = some .defun := by
      unfold Head.of at h
      grind
    obtain ⟨before, after, hkeywords, -⟩ := List.lookup_eq_some_iff.1 hlookup
    have hmem : (t, Keyword.defun) ∈ keywords := by simp [hkeywords]
    simpa [keywords] using hmem
  · rintro rfl
    rfl

theorem headOf_eq_quotation_iff : Head.of F t = .quotation ↔ t = "\"" := by
  unfold Head.of
  grind

end Heads

/-! ## The grammar -/

mutual

/-- An expression stands at the front of the tokens, and some are left over. -/
inductive Reads (F : List String) : List Token → Expr → List Token → Prop
  | nothing : Reads F [] .empty []
  | group {group rest : List Token} {e : Expr} : balanced group = true → Reads F group e [] →
    Reads F ("(" :: (group ++ ")" :: rest)) e rest
  | quotation {words rest : List Token} : (∀ w ∈ words, w ≠ "\"") →
    Reads F ("\"" :: (words ++ "\"" :: rest)) (.str (joinTokens words)) rest
  | apply {head : Token} {op : Op} {ts : List Token} {es : List Expr} :
    Head.of F head = .form (.apply op) → ReadsAll F ts es → Reads F (head :: ts) (.apply op es) []
  | list {head : Token} {ts : List Token} {es : List Expr} :
    Head.of F head = .form .list → ReadsAll F ts es → Reads F (head :: ts) (.list es) []
  | part {head : Token} {which : Part} {ts rest : List Token} {e : Expr} :
    Head.of F head = .form (.part which) → Reads F ts e rest →
    Reads F (head :: ts) (.part which e) rest
  | letIn {head : Token} {group body : List Token} {bs : List (String × Expr)} {es : List Expr} :
    Head.of F head = .form .letIn → balanced group = true → ReadsBindings F group bs →
    ReadsAll F body es → Reads F (head :: "(" :: (group ++ ")" :: body)) (.letIn bs es) []
  | ite {head : Token} {ts : List Token} {c t e : Expr} :
    Head.of F head = .form .ite → ReadsAll F ts [c, t, e] → Reads F (head :: ts) (.ite c t e) []
  | defun {head name : Token} {parameters body : List Token} {es : List Expr} :
    Head.of F head = .form .defun → isIdentifier name = true →
    (∀ p ∈ parameters, isIdentifier p = true) → body ≠ [] → ReadsAll F body es →
    Reads F (head :: name :: "(" :: (parameters ++ ")" :: body)) (.defun name parameters es) []
  | bool {head : Token} {b : Bool} {rest : List Token} :
    Head.of F head = .bool b → Reads F (head :: rest) (.bool b) rest
  | call {head : Token} {ts : List Token} {es : List Expr} :
    Head.of F head = .call → ReadsAll F ts es → Reads F (head :: ts) (.call head es) []
  | numeral {head : Token} {n : Int} {rest : List Token} :
    Head.of F head = .numeral → readNumeral head = .ok n → Reads F (head :: rest) (.int n) rest
  | name {head : Token} {rest : List Token} :
    Head.of F head = .name → Reads F (head :: rest) (.var head) rest

/-- The tokens are expressions one after the other. -/
inductive ReadsAll (F : List String) : List Token → List Expr → Prop
  | nil : ReadsAll F [] []
  | cons {t : Token} {ts rest : List Token} {e : Expr} {es : List Expr} :
    Reads F (t :: ts) e rest → ReadsAll F rest es → ReadsAll F (t :: ts) (e :: es)

/-- The tokens are bindings one after the other, each a group of a name and an
    expression. -/
inductive ReadsBindings (F : List String) : List Token → List (String × Expr) → Prop
  | nil : ReadsBindings F [] []
  | cons {x t : Token} {ts rest : List Token} {e : Expr} {bs : List (String × Expr)} :
    isIdentifier x = true → balanced (t :: ts) = true → Reads F (t :: ts) e [] →
    ReadsBindings F rest bs →
    ReadsBindings F ("(" :: x :: t :: (ts ++ ")" :: rest)) ((x, e) :: bs)

end

/-! ### What the first token decides -/

theorem readsAll_nil_iff {es : List Expr} : ReadsAll F [] es ↔ es = [] := by
  constructor
  · intro h
    cases h
    rfl
  · rintro rfl
    exact .nil

theorem readsAll_cons_iff {t : Token} {ts : List Token} {es : List Expr} :
    ReadsAll F (t :: ts) es ↔
      ∃ e rest fs, Reads F (t :: ts) e rest ∧ ReadsAll F rest fs ∧ es = e :: fs := by
  constructor
  · rintro (_ | ⟨he, hes⟩)
    exact ⟨_, _, _, he, hes, rfl⟩
  · rintro ⟨e, rest, fs, he, hfs, rfl⟩
    exact .cons he hfs

variable (F) in
/-- What the tokens `ts` after a first token `t` have to be, by what it announces, for the
    expression `e` to be read and the tokens `rest` to be left over. -/
def Head.Takes (t : Token) (ts : List Token) (e : Expr) (rest : List Token) : Head → Prop
  | .group => ∃ group, ts = group ++ ")" :: rest ∧ balanced group = true ∧ Reads F group e []
  | .quotation =>
    ∃ words, ts = words ++ "\"" :: rest ∧ (∀ w ∈ words, w ≠ "\"") ∧ e = .str (joinTokens words)
  | .form (.apply op) => rest = [] ∧ ∃ es, ReadsAll F ts es ∧ e = .apply op es
  | .form .list => rest = [] ∧ ∃ es, ReadsAll F ts es ∧ e = .list es
  | .form (.part which) => ∃ target, Reads F ts target rest ∧ e = .part which target
  | .form .letIn =>
    rest = [] ∧ ∃ group body bs es, ts = "(" :: (group ++ ")" :: body) ∧ balanced group = true ∧
      ReadsBindings F group bs ∧ ReadsAll F body es ∧ e = .letIn bs es
  | .form .ite => rest = [] ∧ ∃ c t f, ReadsAll F ts [c, t, f] ∧ e = .ite c t f
  | .form .defun =>
    rest = [] ∧ ∃ name parameters body es, ts = name :: "(" :: (parameters ++ ")" :: body) ∧
      isIdentifier name = true ∧ (∀ p ∈ parameters, isIdentifier p = true) ∧ body ≠ [] ∧
      ReadsAll F body es ∧ e = .defun name parameters es
  | .bool b => rest = ts ∧ e = .bool b
  | .call => rest = [] ∧ ∃ es, ReadsAll F ts es ∧ e = .call t es
  | .numeral => rest = ts ∧ ∃ n, readNumeral t = .ok n ∧ e = .int n
  | .name => rest = ts ∧ e = .var t
  | .unknown => False

/-- An expression that is read is such as its first token announces. -/
theorem reads_cons_iff {t : Token} {ts rest : List Token} {e : Expr} :
    Reads F (t :: ts) e rest ↔ (Head.of F t).Takes F t ts e rest := by
  constructor
  · intro h
    cases h with
    | group hbalanced h => exact ⟨_, rfl, hbalanced, h⟩
    | quotation hwords => exact ⟨_, rfl, hwords, rfl⟩
    | apply hhead hes | list hhead hes | call hhead hes => rw [hhead]; exact ⟨rfl, _, hes, rfl⟩
    | part hhead h => rw [hhead]; exact ⟨_, h, rfl⟩
    | letIn hhead hbalanced hbs hes =>
      rw [hhead]; exact ⟨rfl, _, _, _, _, rfl, hbalanced, hbs, hes, rfl⟩
    | ite hhead hes => rw [hhead]; exact ⟨rfl, _, _, _, hes, rfl⟩
    | defun hhead hname hparameters hbody hes =>
      rw [hhead]; exact ⟨rfl, _, _, _, _, rfl, hname, hparameters, hbody, hes, rfl⟩
    | bool hhead | name hhead => rw [hhead]; exact ⟨rfl, rfl⟩
    | numeral hhead hn => rw [hhead]; exact ⟨rfl, _, hn, rfl⟩
  · cases hhead : Head.of F t with
    | group =>
      rintro ⟨group, rfl, hbalanced, h⟩
      rw [headOf_eq_group_iff.1 hhead]
      exact .group hbalanced h
    | quotation =>
      rintro ⟨words, rfl, hwords, rfl⟩
      rw [headOf_eq_quotation_iff.1 hhead]
      exact .quotation hwords
    | form keyword =>
      cases keyword with
      | apply op => rintro ⟨rfl, es, hes, rfl⟩; exact .apply hhead hes
      | list => rintro ⟨rfl, es, hes, rfl⟩; exact .list hhead hes
      | part which => rintro ⟨target, h, rfl⟩; exact .part hhead h
      | letIn =>
        rintro ⟨rfl, group, body, bs, es, rfl, hbalanced, hbs, hes, rfl⟩
        exact .letIn hhead hbalanced hbs hes
      | ite => rintro ⟨rfl, c, t, f, hes, rfl⟩; exact .ite hhead hes
      | defun =>
        rintro ⟨rfl, name, parameters, body, es, rfl, hname, hparameters, hbody, hes, rfl⟩
        exact .defun hhead hname hparameters hbody hes
    | bool b => rintro ⟨rfl, rfl⟩; exact .bool hhead
    | call => rintro ⟨rfl, es, hes, rfl⟩; exact .call hhead hes
    | numeral => rintro ⟨rfl, n, hn, rfl⟩; exact .numeral hhead hn
    | name => rintro ⟨rfl, rfl⟩; exact .name hhead
    | unknown => exact False.elim

/-! ### What is read conforms to the grammar -/

theorem bind_eq_ok {ε α β : Type} {x : Except ε α} {f : α → Except ε β} {b : β}
    (h : x >>= f = .ok b) : ∃ a, x = .ok a ∧ f a = .ok b := by
  cases x with
  | error e => cases h
  | ok a => exact ⟨a, rfl, h⟩

theorem mapError_eq_ok {ε ε' α : Type} {x : Except ε α} {f : ε → ε'} {a : α}
    (h : x.mapError f = .ok a) : x = .ok a := by
  cases x with
  | error e => cases h
  | ok a => cases h; rfl

section Conformance

variable {one : List Token → Except ReadError (Expr × List Token)}
  (hone : ∀ {ts e rest}, one ts = .ok (e, rest) → Reads F ts e rest)

include hone

theorem readsAll_of_readItems {fuel : Nat} {ts : List Token} {es : List Expr}
    (h : readItems one fuel ts = .ok es) : ReadsAll F ts es := by
  fun_induction readItems one fuel ts generalizing es with
  | case1 => cases h; exact .nil
  | case2 => cases h
  | case3 fuel t ts ih =>
    obtain ⟨⟨e, rest⟩, he, h⟩ := bind_eq_ok h
    obtain ⟨es, hes, h⟩ := bind_eq_ok h
    cases h
    exact .cons (hone he) (ih rest hes)

theorem reads_of_readWhole {ts : List Token} {e : Expr} (h : readWhole one ts = .ok e) :
    Reads F ts e [] := by
  obtain ⟨⟨e', rest⟩, he, h⟩ := bind_eq_ok h
  cases rest with
  | nil => cases h; exact hone he
  | cons t ts => cases h

theorem reads_of_readBinding {group : List Token} {x : String} {e : Expr}
    (h : readBinding one group = .ok (x, e)) :
    ∃ t ts, group = x :: t :: ts ∧ isIdentifier x = true ∧ Reads F (t :: ts) e [] := by
  unfold readBinding at h
  split at h
  · cases h
  split at h
  · next hx =>
    split at h
    · cases h
    · obtain ⟨e', he, h⟩ := bind_eq_ok h
      cases h
      exact ⟨_, _, rfl, hx, reads_of_readWhole hone he⟩
  · cases h

theorem readsBindings_of_readItems {fuel : Nat} {ts : List Token} {bs : List (String × Expr)}
    (h : readItems (readBindingGroup one) fuel ts = .ok bs) : ReadsBindings F ts bs := by
  fun_induction readItems (readBindingGroup one) fuel ts generalizing bs with
  | case1 => cases h; exact .nil
  | case2 => cases h
  | case3 fuel t ts ih =>
    obtain ⟨⟨⟨x, e⟩, rest⟩, hbinding, h⟩ := bind_eq_ok h
    obtain ⟨bs, hbs, h⟩ := bind_eq_ok h
    cases h
    unfold readBindingGroup at hbinding
    split at hbinding
    · obtain ⟨⟨group, rest'⟩, hgroup, hbinding⟩ := bind_eq_ok hbinding
      obtain ⟨b, hb, hbinding⟩ := bind_eq_ok hbinding
      cases hbinding
      obtain ⟨heq, hbalanced⟩ := matchParen_eq_ok_iff.1 (mapError_eq_ok hgroup)
      obtain ⟨u, us, rfl, hx, he⟩ := reads_of_readBinding hone hb
      rw [balanced_cons_of_isAtom (isAtom_of_isIdentifier hx)] at hbalanced
      rw [heq]
      exact .cons hx hbalanced he (ih _ hbs)
    · cases hbinding

theorem reads_of_readLet {head : Token} {ts : List Token} {e : Expr}
    (hhead : Head.of F head = .form .letIn) (h : readLet one ts = .ok e) :
    Reads F (head :: ts) e [] := by
  unfold readLet at h
  split at h
  · obtain ⟨⟨group, body⟩, hgroup, h⟩ := bind_eq_ok h
    obtain ⟨bs, hbs, h⟩ := bind_eq_ok h
    obtain ⟨es, hes, h⟩ := bind_eq_ok h
    cases h
    obtain ⟨rfl, hbalanced⟩ := matchParen_eq_ok_iff.1 (mapError_eq_ok hgroup)
    exact .letIn hhead hbalanced (readsBindings_of_readItems hone hbs)
      (readsAll_of_readItems hone hes)
  · cases h

theorem reads_of_readIf {head : Token} {ts : List Token} {e : Expr}
    (hhead : Head.of F head = .form .ite) (h : readIf one ts = .ok e) :
    Reads F (head :: ts) e [] := by
  obtain ⟨es, hes, h⟩ := bind_eq_ok h
  split at h
  · cases h
    exact .ite hhead (readsAll_of_readItems hone hes)
  · cases h

theorem reads_of_readDefun {head : Token} {ts : List Token} {e : Expr}
    (hhead : Head.of F head = .form .defun) (h : readDefun one ts = .ok e) :
    Reads F (head :: ts) e [] := by
  unfold readDefun at h
  split at h
  · cases h
  split at h
  · next name ts hname =>
    split at h
    · obtain ⟨⟨parameters, body⟩, hgroup, hrest⟩ := bind_eq_ok h
      obtain ⟨rfl, -⟩ := matchParen_eq_ok_iff.1 (mapError_eq_ok hgroup)
      dsimp only at hrest
      split at hrest
      · cases hrest
      · next hfind =>
        split at hrest
        · cases hrest
        · obtain ⟨es, hes, hrest⟩ := bind_eq_ok hrest
          cases hrest
          have hparameters : ∀ p ∈ parameters, isIdentifier p = true := by
            simpa using List.find?_eq_none.1 hfind
          exact .defun hhead hname hparameters (List.cons_ne_nil _ _)
            (readsAll_of_readItems hone hes)
    · cases h
  · cases h

theorem reads_of_readForm {head : Token} {keyword : Keyword} {ts rest : List Token} {e : Expr}
    (hhead : Head.of F head = .form keyword) (h : readForm one keyword ts = .ok (e, rest)) :
    Reads F (head :: ts) e rest := by
  cases keyword with
  | apply op =>
    obtain ⟨es, hes, h⟩ := bind_eq_ok h
    cases h
    exact .apply hhead (readsAll_of_readItems hone hes)
  | list =>
    obtain ⟨es, hes, h⟩ := bind_eq_ok h
    cases h
    exact .list hhead (readsAll_of_readItems hone hes)
  | part which =>
    obtain ⟨⟨e', rest'⟩, he, h⟩ := bind_eq_ok h
    cases h
    exact .part hhead (hone he)
  | letIn =>
    obtain ⟨e', he, h⟩ := bind_eq_ok h
    cases h
    exact reads_of_readLet hone hhead he
  | ite =>
    obtain ⟨e', he, h⟩ := bind_eq_ok h
    cases h
    exact reads_of_readIf hone hhead he
  | defun =>
    obtain ⟨e', he, h⟩ := bind_eq_ok h
    cases h
    exact reads_of_readDefun hone hhead he

end Conformance

/-- What is read conforms to the grammar, whatever the budget was. -/
theorem reads_of_readExpr {depth : Nat} {ts rest : List Token} {e : Expr}
    (h : readExpr F depth ts = .ok (e, rest)) : Reads F ts e rest := by
  induction depth generalizing ts rest e with
  | zero => cases h
  | succ depth ih =>
    cases ts with
    | nil => cases h; exact .nothing
    | cons head ts =>
      rw [readExpr] at h
      split at h
      · -- The first token opens a group.
        obtain ⟨⟨group, rest'⟩, hgroup, h⟩ := bind_eq_ok h
        obtain ⟨e', he, h⟩ := bind_eq_ok h
        cases h
        obtain ⟨heq, hbalanced⟩ := matchParen_eq_ok_iff.1 (mapError_eq_ok hgroup)
        rw [heq]
        exact .group hbalanced (reads_of_readWhole ih he)
      · next hhead =>
        obtain ⟨⟨text, rest'⟩, hquote, h⟩ := bind_eq_ok h
        cases h
        obtain ⟨words, hwords, rfl, rfl⟩ := matchQuote_eq_ok (mapError_eq_ok hquote)
        rw [headOf_eq_quotation_iff.1 hhead]
        exact .quotation hwords
      · next hhead => exact reads_of_readForm ih hhead h
      · next hhead => cases h; exact .bool hhead
      · next hhead =>
        obtain ⟨es, hes, h⟩ := bind_eq_ok h
        cases h
        exact .call hhead (readsAll_of_readItems ih hes)
      · next hhead =>
        obtain ⟨n, hn, h⟩ := bind_eq_ok h
        cases h
        exact .numeral hhead (mapError_eq_ok hn)
      · next hhead => cases h; exact .name hhead
      · cases h

theorem readsAll_of_readSequence {depth : Nat} {ts : List Token} {es : List Expr}
    (h : readSequence F depth ts = .ok es) : ReadsAll F ts es :=
  readsAll_of_readItems reads_of_readExpr h

theorem readsAll_of_readProgram {depth : Nat} {ts : List Token} {es : List Expr}
    (h : readProgram depth ts = .ok es) : ReadsAll (declaredNames ts) ts es :=
  readsAll_of_readSequence h

/-! ### What conforms to the grammar is read -/

/-- An expression takes at least one token, if there is any. -/
theorem Reads.suffix : ∀ {ts rest : List Token} {e : Expr}, Reads F ts e rest → rest <:+ ts.tail
  | _, _, _, .part _ h => h.suffix.trans (List.tail_suffix _)
  | _, _, _, .group _ _ | _, _, _, .quotation _ =>
    (List.suffix_cons _ _).trans (List.suffix_append _ _)
  | _, _, _, .bool _ | _, _, _, .numeral _ _ | _, _, _, .name _ => List.suffix_refl _
  | _, _, _, .nothing | _, _, _, .apply _ _ | _, _, _, .list _ _ | _, _, _, .letIn _ _ _ _
  | _, _, _, .ite _ _ | _, _, _, .defun _ _ _ _ _ | _, _, _, .call _ _ => List.nil_suffix

@[simp] theorem ok_bind {ε α β : Type} (a : α) (f : α → Except ε β) :
    (Except.ok a >>= f) = f a := rfl

@[simp] theorem mapError_ok {ε ε' α : Type} (a : α) (f : ε → ε') :
    (Except.ok a).mapError f = .ok a := rfl

section Repetition

variable {α : Type} {one : List Token → Except ReadError (α × List Token)} {items : List α}
  {ts : List Token}

/-- More items than there are tokens are never asked for. -/
theorem readItems_mono {fuel fuel' : Nat} (h : readItems one fuel ts = .ok items)
    (hle : fuel ≤ fuel') : readItems one fuel' ts = .ok items := by
  fun_induction readItems one fuel ts generalizing fuel' items with
  | case1 => cases fuel' <;> exact h
  | case2 => cases h
  | case3 fuel t ts ih =>
    obtain ⟨fuel', rfl⟩ : ∃ n, fuel' = n + 1 := ⟨fuel' - 1, by omega⟩
    obtain ⟨⟨item, rest⟩, hone, h⟩ := bind_eq_ok h
    obtain ⟨items, hitems, h⟩ := bind_eq_ok h
    have hrest := ih rest hitems (show fuel ≤ fuel' by omega)
    simp only [readItems, hone, ok_bind, hrest]
    exact h

theorem readAll_cons {t : Token} {rest : List Token} {item : α}
    (hone : one (t :: ts) = .ok (item, rest)) (hrest : readAll one rest = .ok items)
    (hlt : rest.length ≤ ts.length) : readAll one (t :: ts) = .ok (item :: items) := by
  simp only [readAll, List.length_cons, readItems, hone, ok_bind, readItems_mono hrest hlt]
  rfl

end Repetition

section Forms

variable {one : List Token → Except ReadError (Expr × List Token)} {group body : List Token}
  {es : List Expr}

theorem readWhole_eq_ok {e : Expr} (h : one group = .ok (e, [])) : readWhole one group = .ok e := by
  simp only [readWhole, h, ok_bind]
  rfl

theorem readLet_eq_ok {bs : List (String × Expr)} (hgroup : balanced group = true)
    (hbs : readAll (readBindingGroup one) group = .ok bs) (hes : readAll one body = .ok es) :
    readLet one ("(" :: (group ++ ")" :: body)) = .ok (.letIn bs es) := by
  simp only [readLet, List.head?_cons, if_true, matchParen_group hgroup, mapError_ok, ok_bind,
    hbs, hes]
  rfl

theorem readDefun_eq_ok {name : Token} (hname : isIdentifier name = true)
    (hgroup : ∀ p ∈ group, isIdentifier p = true) (hbody : body ≠ [])
    (hes : readAll one body = .ok es) :
    readDefun one (name :: "(" :: (group ++ ")" :: body)) = .ok (.defun name group es) := by
  have hfind : group.find? (fun p => !isIdentifier p) = none := by simpa using hgroup
  obtain ⟨t, ts, rfl⟩ := List.exists_cons_of_ne_nil hbody
  simp only [readDefun, hname, List.head?_cons, if_true,
    matchParen_group (balanced_of_isIdentifier hgroup), mapError_ok, ok_bind, hfind, hes]
  rfl

theorem readBindingGroup_eq_ok {x t : Token} {ts : List Token} {e : Expr}
    (hx : isIdentifier x = true) (hgroup : balanced (t :: ts) = true)
    (he : one (t :: ts) = .ok (e, [])) (rest : List Token) :
    readBindingGroup one ("(" :: x :: t :: (ts ++ ")" :: rest)) = .ok ((x, e), rest) := by
  rw [← balanced_cons_of_isAtom (isAtom_of_isIdentifier hx)] at hgroup
  have hmatch := matchParen_group hgroup rest
  simp only [List.cons_append] at hmatch
  simp only [readBindingGroup, List.head?_cons, if_true, hmatch, mapError_ok, ok_bind, readBinding,
    hx, readWhole_eq_ok he]
  rfl

end Forms

mutual

/-- With a budget that exceeds the number of the tokens taken, what conforms to
    the grammar is read. -/
theorem Reads.readExpr : ∀ {ts rest : List Token} {e : Expr}, Reads F ts e rest →
    ∀ depth, ts.length ≤ depth + rest.length → readExpr F (depth + 1) ts = .ok (e, rest)
  | _, _, _, .nothing, depth, _ => rfl
  | _, _, _, @Reads.group _ group rest e hbalanced h, depth, hdepth => by
    have hhead : Head.of F "(" = .group := rfl
    simp only [List.length_cons, List.length_append] at hdepth
    obtain ⟨depth, rfl⟩ : ∃ d, depth = d + 1 := ⟨depth - 1, by omega⟩
    have hwhole := readWhole_eq_ok (h.readExpr depth (by simp; omega))
    simp only [LazyLisp.readExpr, hhead, matchParen_group hbalanced, mapError_ok, ok_bind, hwhole]
    rfl
  | _, _, _, .quotation hwords, depth, hdepth => by
    have hhead : Head.of F "\"" = .quotation := rfl
    simp only [LazyLisp.readExpr, hhead, matchQuote_words hwords, mapError_ok, ok_bind]
    rfl
  | _, _, _, .apply hhead hes, depth, hdepth => by
    simp only [LazyLisp.readExpr, hhead, readForm, hes.readAll depth hdepth, ok_bind]
    rfl
  | _, _, _, .list hhead hes, depth, hdepth => by
    simp only [LazyLisp.readExpr, hhead, readForm, hes.readAll depth hdepth, ok_bind]
    rfl
  | _, _, _, .part hhead h, depth, hdepth => by
    have hlt := h.suffix.length_le
    simp only [List.length_cons, List.length_tail] at hdepth hlt
    obtain ⟨depth, rfl⟩ : ∃ d, depth = d + 1 := ⟨depth - 1, by omega⟩
    have hone := h.readExpr depth (by omega)
    simp only [LazyLisp.readExpr, hhead, readForm, hone, ok_bind]
    rfl
  | _, _, _, .letIn hhead hbalanced hbs hes, depth, hdepth => by
    simp only [List.length_cons, List.length_append, List.length_nil] at hdepth
    have hlet := readLet_eq_ok hbalanced (hbs.readAll depth (by omega))
      (hes.readAll depth (by omega))
    simp only [LazyLisp.readExpr, hhead, readForm, hlet, ok_bind]
    rfl
  | _, _, _, .ite hhead hes, depth, hdepth => by
    simp only [LazyLisp.readExpr, hhead, readForm, readIf, hes.readAll depth hdepth, ok_bind]
    rfl
  | _, _, _, .defun hhead hname hparameters hbody hes, depth, hdepth => by
    simp only [List.length_cons, List.length_append, List.length_nil] at hdepth
    have hdefun := readDefun_eq_ok hname hparameters hbody (hes.readAll depth (by omega))
    simp only [LazyLisp.readExpr, hhead, readForm, hdefun, ok_bind]
    rfl
  | _, _, _, .bool hhead, depth, hdepth => by simp only [LazyLisp.readExpr, hhead]
  | _, _, _, .call hhead hes, depth, hdepth => by
    simp only [LazyLisp.readExpr, hhead, hes.readAll depth hdepth, ok_bind]
    rfl
  | _, _, _, .numeral hhead hn, depth, hdepth => by
    simp only [LazyLisp.readExpr, hhead, hn, mapError_ok, ok_bind]
    rfl
  | _, _, _, .name hhead, depth, hdepth => by simp only [LazyLisp.readExpr, hhead]

theorem ReadsAll.readAll : ∀ {ts : List Token} {es : List Expr}, ReadsAll F ts es →
    ∀ depth, ts.length < depth → readAll (LazyLisp.readExpr F depth) ts = .ok es
  | _, _, .nil, _, _ => rfl
  | _, _, .cons he hes, depth, hdepth => by
    have hlt := he.suffix.length_le
    simp only [List.length_cons, List.tail_cons] at hlt hdepth
    obtain ⟨depth, rfl⟩ : ∃ d, depth = d + 1 := ⟨depth - 1, by omega⟩
    exact readAll_cons (he.readExpr depth (by simp; omega)) (hes.readAll (depth + 1) (by omega)) hlt

theorem ReadsBindings.readAll : ∀ {ts : List Token} {bs : List (String × Expr)},
    ReadsBindings F ts bs → ∀ depth, ts.length < depth →
      readAll (readBindingGroup (LazyLisp.readExpr F depth)) ts = .ok bs
  | _, _, .nil, _, _ => rfl
  | _, _, .cons hx hbalanced he hbs, depth, hdepth => by
    simp only [List.length_cons, List.length_append] at hdepth
    obtain ⟨depth, rfl⟩ : ∃ d, depth = d + 1 := ⟨depth - 1, by omega⟩
    exact readAll_cons (readBindingGroup_eq_ok hx hbalanced (he.readExpr depth (by simp; omega)) _)
      (hbs.readAll (depth + 1) (by omega)) (by simp; omega)

end

end LazyLisp
