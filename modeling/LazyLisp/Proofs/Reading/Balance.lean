import LazyLisp.Proofs.Reading.Lexing
import LazyLisp.Token.Group

/-!
# Balanced tokens

The group that a parenthesis opens is searched for by counting parentheses, and
nothing else: those inside of quotations count as well. It is found where the
tokens in between are *balanced*.

* `balanced`: tokens whose parentheses match;
* `matchParen_eq_ok_iff`: the group that is found is the balanced one;
* `openAfter_group`: a group makes no difference to what is open around it;
* `matchParen_exact`: the same by the numbers of the parentheses, and when there is no group.
-/

namespace LazyLisp

/-- How many groups are open after the tokens, if so many were open before them,
    and `none` if more of them are closed than are open. -/
def openAfter : Nat → List Token → Option Nat
  | depth, [] => some depth
  | depth, t :: ts =>
    if t = "(" then openAfter (depth + 1) ts
    else if t = ")" then
      match depth with
      | 0 => none
      | depth + 1 => openAfter depth ts
    else openAfter depth ts

/-- Every group that is opened is closed, and the reverse. -/
def balanced (tokens : List Token) : Bool := openAfter 0 tokens = some 0

section Balance

variable {t : Token} {ts us group rest : List Token} {depth : Nat}

theorem openAfter_cons_of_ne (hopen : t ≠ "(") (hclose : t ≠ ")") :
    openAfter depth (t :: ts) = openAfter depth ts := by
  rw [openAfter.eq_def]
  simp [hopen, hclose]

theorem openAfter_append :
    openAfter depth (ts ++ us) = (openAfter depth ts).bind (openAfter · us) := by
  fun_induction openAfter depth ts with
  | case1 => rfl
  | case2 depth ts ih => simpa [openAfter] using ih
  | case3 ts => simp [openAfter]
  | case4 ts depth _ ih => simpa [openAfter] using ih
  | case5 depth t ts hopen hclose ih =>
    rw [List.cons_append, openAfter_cons_of_ne hopen hclose, ih]

/-- The groups that were open before make no difference to those inside. -/
theorem openAfter_add {n : Nat} (k : Nat) (h : openAfter depth ts = some n) :
    openAfter (depth + k) ts = some (n + k) := by
  fun_induction openAfter depth ts with
  | case1 depth => cases h; rfl
  | case2 depth ts ih =>
    simpa [openAfter, Nat.add_right_comm] using ih h
  | case3 ts => cases h
  | case4 ts depth _ ih =>
    simpa [openAfter, Nat.add_right_comm] using ih h
  | case5 depth t ts hopen hclose ih =>
    rw [openAfter_cons_of_ne hopen hclose, ih h]

theorem openAfter_of_balanced (h : balanced ts = true) : openAfter depth ts = some depth := by
  rw [balanced, decide_eq_true_iff] at h
  simpa using openAfter_add depth h

theorem openAfter_cons_of_isAtom (h : isAtom t = true) :
    openAfter depth (t :: ts) = openAfter depth ts := by
  obtain ⟨hopen, hclose, -⟩ := ne_delimiter_of_isAtom h
  exact openAfter_cons_of_ne hopen hclose

theorem balanced_cons_of_isAtom (h : isAtom t = true) :
    balanced (t :: ts) = balanced ts := by
  rw [balanced, openAfter_cons_of_isAtom h, balanced]

/-- A group makes no difference to what is open around it. -/
theorem openAfter_group (h : balanced ts = true) :
    openAfter depth ("(" :: (ts ++ ")" :: us)) = openAfter depth us := by
  have hopen : openAfter depth ("(" :: (ts ++ ")" :: us)) =
      openAfter (depth + 1) (ts ++ ")" :: us) := rfl
  rw [hopen, openAfter_append, openAfter_of_balanced h]
  rfl

theorem balanced_of_isAtom (h : ∀ t ∈ ts, isAtom t = true) : balanced ts = true := by
  induction ts with
  | nil => rfl
  | cons t ts ih =>
    rw [List.forall_mem_cons] at h
    rw [balanced_cons_of_isAtom h.1, ih h.2]

theorem balanced_of_isIdentifier (h : ∀ t ∈ ts, isIdentifier t = true) : balanced ts = true :=
  balanced_of_isAtom fun t ht => isAtom_of_isIdentifier (h t ht)

/-! ## Groups -/

/-- The search for the end of a group stops right after what closes the groups
    that are open. -/
theorem splitGroup_append (h : openAfter depth group = some 0) :
    splitGroup depth (group ++ ")" :: rest) = some (group, rest) := by
  fun_induction openAfter depth group with
  | case1 depth => cases h; simp [splitGroup]
  | case2 depth ts ih => simp [splitGroup, ih h]
  | case3 ts => cases h
  | case4 ts depth _ ih => simp [splitGroup, ih h]
  | case5 depth t ts hopen hclose ih =>
    rw [List.cons_append, splitGroup.eq_def]
    simp [hopen, hclose, ih h]

theorem eq_append_of_splitGroup (h : splitGroup depth ts = some (group, rest)) :
    ts = group ++ ")" :: rest ∧ openAfter depth group = some 0 := by
  fun_induction splitGroup depth ts generalizing group rest with
  | case1 depth => cases h
  | case2 depth ts ih =>
    obtain ⟨⟨inner, outer⟩, hsplit, heq⟩ := Option.map_eq_some_iff.1 h
    obtain ⟨rfl, rfl⟩ := Prod.mk.inj heq
    obtain ⟨rfl, hopen⟩ := ih hsplit
    exact ⟨rfl, by simpa [openAfter] using hopen⟩
  | case3 ts =>
    obtain ⟨rfl, rfl⟩ := Prod.mk.inj (Option.some.inj h)
    exact ⟨rfl, rfl⟩
  | case4 ts depth _ ih =>
    obtain ⟨⟨inner, outer⟩, hsplit, heq⟩ := Option.map_eq_some_iff.1 h
    obtain ⟨rfl, rfl⟩ := Prod.mk.inj heq
    obtain ⟨rfl, hopen⟩ := ih hsplit
    exact ⟨rfl, by simpa [openAfter] using hopen⟩
  | case5 depth t ts hopen hclose ih =>
    obtain ⟨⟨inner, outer⟩, hsplit, heq⟩ := Option.map_eq_some_iff.1 h
    obtain ⟨rfl, rfl⟩ := Prod.mk.inj heq
    obtain ⟨rfl, hinner⟩ := ih hsplit
    exact ⟨rfl, by rw [openAfter_cons_of_ne hopen hclose, hinner]⟩

/-- The group at the front is what is balanced between its parentheses. -/
theorem matchParen_eq_ok_iff : matchParen ts = .ok (group, rest) ↔
    ts = "(" :: (group ++ ")" :: rest) ∧ balanced group = true := by
  constructor
  · intro h
    unfold matchParen at h
    split at h
    · cases h
    split at h
    · next hopen =>
      split at h
      · next hsplit =>
        cases h
        obtain ⟨rfl, hbalanced⟩ := eq_append_of_splitGroup hsplit
        exact ⟨by rw [hopen], by rw [balanced, decide_eq_true hbalanced]⟩
      · cases h
    · cases h
  · rintro ⟨rfl, hbalanced⟩
    rw [balanced, decide_eq_true_iff] at hbalanced
    simp [matchParen, splitGroup_append hbalanced]

theorem matchParen_group (h : balanced group = true) (rest : List Token) :
    matchParen ("(" :: (group ++ ")" :: rest)) = .ok (group, rest) :=
  matchParen_eq_ok_iff.2 ⟨rfl, h⟩

/-- A group ends where its parenthesis is closed, and nowhere else. -/
theorem balanced_inj {group' rest' : List Token} (h : balanced group = true)
    (h' : balanced group' = true) (heq : group ++ ")" :: rest = group' ++ ")" :: rest') :
    group = group' ∧ rest = rest' := by
  have hmatch := matchParen_group h rest
  rw [heq, matchParen_group h'] at hmatch
  cases hmatch
  exact ⟨rfl, rfl⟩

/-! ## Parentheses by number -/

theorem forall_prefix_cons {P : List Token → Prop} :
    (∀ front, front <+: t :: ts → P front) ↔ P [] ∧ ∀ front, front <+: ts → P (t :: front) := by
  simp only [List.prefix_cons_iff]
  grind

/-- The groups that are open are those opened less those closed, and at no place in between
    are more of them closed than were opened. -/
theorem openAfter_eq_some_iff {n : Nat} : openAfter depth ts = some n ↔
    depth + ts.count "(" = n + ts.count ")" ∧
      ∀ front, front <+: ts → front.count ")" ≤ depth + front.count "(" := by
  fun_induction openAfter depth ts with
  | case1 depth => simp
  | case2 depth ts ih =>
    rw [ih, forall_prefix_cons]
    simp [Nat.add_right_comm, Nat.add_assoc]
  | case3 ts =>
    -- The first token closes a group that is not open.
    simp only [forall_prefix_cons, reduceCtorEq, false_iff]
    rintro ⟨-, -, hfront⟩
    exact absurd (hfront [] List.nil_prefix) (by decide)
  | case4 ts depth _ ih =>
    rw [ih, forall_prefix_cons]
    simp [Nat.add_right_comm depth 1, ← Nat.add_assoc]
  | case5 depth t ts hopen hclose ih =>
    rw [ih, forall_prefix_cons]
    simp [hopen, hclose]

/-- The tokens are a group between its parentheses, and others after it: inside of the group
    as many parentheses open as close, and up to no place in it do more close than open. -/
structure SplitsAt (tokens group rest : List Token) : Prop where
  tokens_eq : tokens = "(" :: (group ++ ")" :: rest)
  count_eq : group.count "(" = group.count ")"
  count_le : ∀ front, front <+: group → front.count ")" ≤ front.count "("

theorem splitsAt_iff :
    SplitsAt ts group rest ↔ ts = "(" :: (group ++ ")" :: rest) ∧ balanced group = true := by
  rw [balanced, decide_eq_true_iff, openAfter_eq_some_iff]
  simp only [Nat.zero_add]
  exact ⟨fun h => ⟨h.tokens_eq, h.count_eq, h.count_le⟩, fun h => ⟨h.1, h.2.1, h.2.2⟩⟩

theorem matchParen_cons_error {cause : ParseError} (h : matchParen ("(" :: ts) = .error cause) :
    cause = .unmatchedParen := by
  rw [matchParen, if_pos rfl] at h
  split at h
  · cases h
  · exact (Except.error.inj h).symm

/-- The group at the front of tokens that start with a parenthesis is found exactly where the
    parentheses match by their numbers. There is no second such place, and if there is none,
    and only then, the parenthesis is reported to have no match. -/
theorem matchParen_exact (ts : List Token) :
    (∀ group rest, matchParen ("(" :: ts) = .ok (group, rest) ↔
        SplitsAt ("(" :: ts) group rest) ∧
      (∀ group rest group' rest', SplitsAt ("(" :: ts) group rest →
        SplitsAt ("(" :: ts) group' rest' → group = group' ∧ rest = rest') ∧
      ((∃ cause, matchParen ("(" :: ts) = .error cause ∧ cause.message = "parenthesis mismatch") ↔
        ¬∃ group rest, SplitsAt ("(" :: ts) group rest) := by
  have hsplit (group rest : List Token) :
      matchParen ("(" :: ts) = .ok (group, rest) ↔ SplitsAt ("(" :: ts) group rest :=
    matchParen_eq_ok_iff.trans splitsAt_iff.symm
  refine ⟨hsplit, ?_, ?_⟩
  · intro group rest group' rest' h h'
    rw [← hsplit] at h h'
    exact Prod.mk.inj (Except.ok.inj (h.symm.trans h'))
  · simp only [← hsplit]
    constructor
    · rintro ⟨cause, hcause, -⟩ ⟨group, rest, h⟩
      rw [hcause] at h
      cases h
    · intro hnone
      cases hmatch : matchParen ("(" :: ts) with
      | ok split => exact absurd ⟨split.1, split.2, hmatch⟩ hnone
      | error cause =>
        obtain rfl := matchParen_cons_error hmatch
        exact ⟨_, rfl, rfl⟩

/-- A group with a parenthesis in a quotation, which counts like any other, and tokens after
    it that match nothing; and the same tokens without the last parenthesis of the group. -/
theorem matchParen_exact_quotation :
    let group := ["list", "\"", "(", "\"", "(", ")", ")"]
    SplitsAt ("(" :: (group ++ [")", ")", "("])) group [")", "("] ∧
      matchParen ("(" :: (group ++ [")", ")", "("])) = .ok (group, [")", "("]) ∧
      ¬∃ inner rest, SplitsAt ("(" :: group) inner rest := by
  intro group
  have hmatch : matchParen ("(" :: (group ++ [")", ")", "("])) = .ok (group, [")", "("]) := by
    decide
  have hunmatched : matchParen ("(" :: group) = .error .unmatchedParen := by decide
  refine ⟨((matchParen_exact (group ++ [")", ")", "("])).1 group _).1 hmatch, hmatch, ?_⟩
  exact (matchParen_exact group).2.2.1 ⟨_, hunmatched, rfl⟩

/-! ## Quotations -/

theorem splitQuote_append {words : List Token} (h : ∀ w ∈ words, w ≠ "\"") :
    splitQuote (words ++ "\"" :: rest) = some (words, rest) := by
  induction words with
  | nil => simp [splitQuote]
  | cons w words ih =>
    rw [List.forall_mem_cons] at h
    simp [splitQuote, h.1, ih h.2]

theorem eq_append_of_splitQuote {words : List Token} (h : splitQuote ts = some (words, rest)) :
    ts = words ++ "\"" :: rest ∧ ∀ w ∈ words, w ≠ "\"" := by
  induction ts generalizing words rest with
  | nil => cases h
  | cons t ts ih =>
    rw [splitQuote] at h
    split at h
    · next ht =>
      obtain ⟨rfl, rfl⟩ := Prod.mk.inj (Option.some.inj h)
      exact ⟨by rw [ht]; rfl, by simp⟩
    · next ht =>
      obtain ⟨⟨words, rest⟩, hsplit, heq⟩ := Option.map_eq_some_iff.1 h
      obtain ⟨rfl, rfl⟩ := Prod.mk.inj heq
      obtain ⟨rfl, hwords⟩ := ih hsplit
      exact ⟨rfl, List.forall_mem_cons.2 ⟨ht, hwords⟩⟩

theorem matchQuote_eq_ok {text : String} (h : matchQuote (t :: ts) = .ok (text, rest)) :
    ∃ words, (∀ w ∈ words, w ≠ "\"") ∧ ts = words ++ "\"" :: rest ∧ text = joinTokens words := by
  rw [matchQuote, List.tail_cons] at h
  split at h
  · next words _ hsplit =>
    cases h
    obtain ⟨rfl, hwords⟩ := eq_append_of_splitQuote hsplit
    exact ⟨words, hwords, rfl, rfl⟩
  · cases h

theorem matchQuote_words {words : List Token} (h : ∀ w ∈ words, w ≠ "\"") (rest : List Token) :
    matchQuote ("\"" :: (words ++ "\"" :: rest)) = .ok (joinTokens words, rest) := by
  simp only [matchQuote, List.tail_cons, splitQuote_append h]

end Balance

end LazyLisp
