import LazyLisp.Proofs.Evaluation.Resolution
import LazyLisp.Proofs.Expr.Sameness
import LazyLisp.Proofs.Program.Definitions

/-!
# Redefinition

A function may be defined more than once. Its place in the table is then that of the first
definition, its parameters and body are those of the last, and every definition but the first
is recorded as it takes the place of the one before, with a warning (`ofDefinitions_exact`). A
definition more at the end of the list adds a name or a record, but never both
(`names_define`, `redefined_concat`); what is said of whole lists follows from this by
induction.

Tables are equal if they have the same functions by the same names. For the equality the order
of the names does not count, and so neither does that of definitions of different names.
-/

namespace LazyLisp

/-- The definition is one of the list, and none after it is of the same name. -/
def Definition.IsLastIn (d : Definition) (definitions : List Definition) : Prop :=
  ∃ before after, definitions = before ++ d :: after ∧ ∀ d' ∈ after, d'.name ≠ d.name

/-- The same definitions in another order, in which those of each name follow each other as
    before. -/
structure Reordered (definitions definitions' : List Definition) : Prop where
  perm : definitions.Perm definitions'
  order : ∀ f, definitions.filter (·.name = f) = definitions'.filter (·.name = f)

namespace FunctionTable

variable {t u : FunctionTable} {f : String} {function : Function} {ds : List Definition}

/-! ## Lookup -/

/-- The function that is found for a name is that of its last definition. -/
theorem get?_ofDefinitions_eq_some_iff :
    (ofDefinitions ds).get? f = some function ↔ Definition.IsLastIn ⟨f, function⟩ ds := by
  rw [get?_ofDefinitions, List.getLast?_eq_head?_reverse, ← List.filter_reverse, List.head?_filter,
    Option.map_eq_some_iff]
  constructor
  · rintro ⟨d, hfind, rfl⟩
    obtain ⟨hname, after, before, hds, hafter⟩ := List.find?_eq_some_iff_append.1 hfind
    obtain rfl : d.name = f := by simpa using hname
    refine ⟨before.reverse, after.reverse, ?_, ?_⟩
    · rw [← List.reverse_reverse ds, hds]
      simp
    · simpa using hafter
  · rintro ⟨before, after, rfl, hafter⟩
    refine ⟨⟨f, function⟩, List.find?_eq_some_iff_append.2 ⟨by simp, ?_⟩, rfl⟩
    exact ⟨after.reverse, before.reverse, by simp, by simpa using hafter⟩

theorem get?_ofDefinitions_eq_none_iff :
    (ofDefinitions ds).get? f = none ↔ ∀ d ∈ ds, d.name ≠ f := by
  simp [get?_ofDefinitions]

theorem lookup_eq_ok_iff : t.lookup f = .ok function ↔ t.get? f = some function := by
  refine ⟨fun h => ?_, lookup_eq_ok⟩
  rw [lookup] at h
  split at h
  · next hget => rw [hget, Except.ok.inj h]
  · cases h

theorem lookup_eq_error_iff :
    t.lookup f = .error (.error (.unknownFunction f)) ↔ t.get? f = none := by
  rw [lookup]
  split <;> simp_all [raise, EvalError.writable]

/-! ## Names -/

theorem size_eq_length_names (t : FunctionTable) : t.size = t.names.length :=
  (List.length_map _).symm

theorem mem_names_iff : f ∈ t.names ↔ ∃ function, t.get? f = some function := by
  rw [← Option.ne_none_iff_exists', get?, Ne, lookup_eq_none_iff_notMem, not_not]
  rfl

theorem contains_iff : t.contains f = true ↔ f ∈ t.names := by
  rw [contains, Option.isSome_iff_exists, mem_names_iff]

theorem names_insertEntry (f : String) (function : Function)
    (entries : List (String × Function)) :
    (insertEntry f function entries).map Prod.fst =
      if f ∈ entries.map Prod.fst then entries.map Prod.fst
      else entries.map Prod.fst ++ [f] := by
  induction entries with
  | nil => rfl
  | cons entry entries ih =>
    obtain ⟨g, other⟩ := entry
    rw [insertEntry]
    split
    · next h => simp [h]
    · next h =>
      rw [List.map_cons, ih]
      simp only [List.map_cons, List.mem_cons, Ne.symm h, false_or]
      split <;> rfl

/-- A definition adds its name at the end, unless it is there already. -/
theorem names_define (t : FunctionTable) (d : Definition) :
    (t.define d).names = if d.name ∈ t.names then t.names else t.names ++ [d.name] :=
  names_insertEntry d.name d.function t.entries

theorem mem_names_ofDefinitions :
    f ∈ (ofDefinitions ds).names ↔ f ∈ ds.map Definition.name := by
  induction ds using List.reverseRecOn with
  | nil => rfl
  | append_singleton ds d ih =>
    rw [ofDefinitions_concat, names_define, List.map_append, List.mem_append, ← ih]
    split
    · next hd =>
      constructor
      · exact .inl
      · rintro (h | h)
        · exact h
        · rwa [List.mem_singleton.1 h]
    · rw [List.mem_append]
      rfl

/-- The names stand in the order of their first definitions. -/
theorem pairwise_names_ofDefinitions (ds : List Definition) :
    (ofDefinitions ds).names.Pairwise fun f g =>
      (ds.map Definition.name).idxOf f < (ds.map Definition.name).idxOf g := by
  induction ds using List.reverseRecOn with
  | nil => exact .nil
  | append_singleton ds d ih =>
    have hfirst {f : String} (hf : f ∈ (ofDefinitions ds).names) :
        ((ds ++ [d]).map Definition.name).idxOf f = (ds.map Definition.name).idxOf f := by
      rw [List.map_append, List.idxOf_append_of_mem (mem_names_ofDefinitions.1 hf)]
    have hbefore : (ofDefinitions ds).names.Pairwise fun f g =>
        ((ds ++ [d]).map Definition.name).idxOf f < ((ds ++ [d]).map Definition.name).idxOf g :=
      ih.imp_of_mem fun hf hg hlt => by rwa [hfirst hf, hfirst hg]
    rw [ofDefinitions_concat, names_define]
    split
    · exact hbefore
    · next hd =>
      -- A new name comes after all that are defined before.
      refine List.pairwise_append.2 ⟨hbefore, List.pairwise_singleton _ _, fun f hf g hg => ?_⟩
      obtain rfl := List.mem_singleton.1 hg
      rw [hfirst hf, List.map_append,
        List.idxOf_append_of_notMem fun h => hd (mem_names_ofDefinitions.2 h)]
      exact Nat.lt_add_right _ (List.idxOf_lt_length_of_mem (mem_names_ofDefinitions.1 hf))

theorem nodup_names_ofDefinitions (ds : List Definition) : (ofDefinitions ds).names.Nodup := by
  refine (pairwise_names_ofDefinitions ds).imp ?_
  rintro f g hlt rfl
  exact Nat.lt_irrefl _ hlt

/-! ## Records of redefinition -/

/-- A definition more is recorded if its name is defined before. -/
theorem redefined_concat (ds : List Definition) (d : Definition) :
    (Draft.ofDefinitions (ds ++ [d])).redefined = (Draft.ofDefinitions ds).redefined ++
      if d.name ∈ ds.map Definition.name then [d.name] else [] := by
  have hcontains : (Draft.ofDefinitions ds).table.contains d.name = true ↔
      d.name ∈ ds.map Definition.name := contains_iff.trans mem_names_ofDefinitions
  rw [Draft.ofDefinitions, List.foldl_concat, ← Draft.ofDefinitions, Draft.add]
  simp only [hcontains]
  split <;> simp

/-- Every definition adds a name or a record. -/
theorem length_redefined (ds : List Definition) :
    (Draft.ofDefinitions ds).redefined.length + (ofDefinitions ds).size = ds.length := by
  rw [size_eq_length_names]
  induction ds using List.reverseRecOn with
  | nil => rfl
  | append_singleton ds d ih =>
    rw [redefined_concat, ofDefinitions_concat, names_define]
    simp only [mem_names_ofDefinitions, List.length_append, ← ih]
    split
    · simp only [List.length_singleton, Nat.add_right_comm]
    · simp only [List.length_append, List.length_singleton, List.length_nil, Nat.add_assoc,
        Nat.zero_add]

/-- Each name is recorded for all of its definitions but the first. -/
theorem count_redefined (ds : List Definition) (f : String) :
    (Draft.ofDefinitions ds).redefined.count f = (ds.map Definition.name).count f - 1 := by
  induction ds using List.reverseRecOn with
  | nil => rfl
  | append_singleton ds d ih =>
    rw [redefined_concat, List.map_append, List.count_append, List.count_append, ih]
    by_cases hf : d.name = f
    · subst hf
      rw [List.map_singleton, List.count_singleton_self, Nat.add_sub_cancel]
      split
      · next hd =>
        rw [List.count_singleton_self, Nat.sub_add_cancel (List.count_pos_iff.2 hd)]
      · next hd => rw [List.count_eq_zero.2 hd, List.count_nil]
    · split <;> simp [hf]

end FunctionTable

/-- The events of a function table that a test accepts are its records, if it accepts them and
    not the completion of the table. -/
theorem filter_tableEvents {p : Event → Bool} (hredefined : ∀ f, p (.redefined f) = true)
    (hbuilt : ∀ names, p (.tableBuilt names) = false) (ds : List Definition) :
    (Execution.tableEvents ds).filter p =
      (FunctionTable.Draft.ofDefinitions ds).redefined.map .redefined := by
  rw [Execution.tableEvents, List.filter_append, List.filter_singleton, hbuilt, cond_false,
    List.append_nil, List.filter_eq_self]
  exact List.forall_mem_map.2 fun f _ => hredefined f

/-! ## Equality of tables -/

theorem Function.same_iff {f g : Function} : f.same g = true ↔ f = g := by
  obtain ⟨parameters, body⟩ := f
  obtain ⟨parameters', body'⟩ := g
  rw [Function.same, Bool.and_eq_true, beq_iff_eq,
    Expr.sameAll_iff_of_sameTree_iff fun _ _ _ => Expr.sameTree_iff, Function.mk.injEq]

namespace FunctionTable

variable {t u : FunctionTable} {f : String} {function : Function} {ds ds' : List Definition}

theorem mem_entries_iff (ht : t.names.Nodup) :
    (f, function) ∈ t.entries ↔ t.get? f = some function := by
  refine ⟨fun hmem => ?_, mem_of_lookup⟩
  obtain ⟨before, after, hentries⟩ := List.append_of_mem hmem
  rw [names, hentries, List.map_append, List.map_cons] at ht
  refine List.lookup_eq_some_iff.2 ⟨before, after, hentries, fun entry hentry => ?_⟩
  rw [bne_iff_ne]
  rintro rfl
  exact (List.nodup_append.1 ht).2.2 _ (List.mem_map_of_mem hentry) _ List.mem_cons_self rfl

/-- Tables are equal exactly if they have the same function for each name. -/
theorem same_iff (ht : t.names.Nodup) (hu : u.names.Nodup) :
    t.same u = true ↔ ∀ f, t.get? f = u.get? f := by
  have hsame : t.same u = true ↔ t.names.length = u.names.length ∧
      ∀ f function, t.get? f = some function → u.get? f = some function := by
    simp only [same, Bool.and_eq_true, beq_iff_eq, size_eq_length_names, List.all_eq_true,
      Prod.forall, mem_entries_iff ht, Option.any_eq_true, Function.same_iff, exists_eq_right']
  rw [hsame]
  constructor
  · rintro ⟨hlength, hsub⟩ f
    cases hf : t.get? f with
    | some function => exact (hsub f function hf).symm
    | none =>
      -- The tables have as many names, so that the other has none that is missing here.
      have hperm : t.names.Perm u.names := by
        refine (List.subperm_of_subset ht fun g hg => ?_).perm_of_length_le hlength.ge
        obtain ⟨function, hfunction⟩ := mem_names_iff.1 hg
        exact mem_names_iff.2 ⟨function, hsub g function hfunction⟩
      rw [eq_comm, Option.eq_none_iff_forall_not_mem]
      intro function hfunction
      obtain ⟨other, hother⟩ := mem_names_iff.1 (hperm.mem_iff.2 (mem_names_iff.2 ⟨_, hfunction⟩))
      simp [hf] at hother
  · intro h
    refine ⟨?_, fun f function hf => (h f).symm.trans hf⟩
    have hperm : t.names.Perm u.names :=
      (List.perm_ext_iff_of_nodup ht hu).2 fun f => by simp only [mem_names_iff, h]
    exact hperm.length_eq

end FunctionTable

/-- The table of a list of definitions, by what it has, what it lists and what is recorded as
    it is built:

    * a name has the function of its last definition, and its lookup fails exactly if it has no
      definition;
    * each name that is defined is listed once, in the order of the first definitions;
    * the events of building it are records of the names that were defined again, each as often
      as it was, and at last the list of the names. The warnings among them, which are also
      those shown at the level of warnings, are the records, with a message each, and there are
      as many as there are more definitions than names;
    * it is equal to the table of other definitions exactly if all names have the same functions
      in both, as they do if the definitions of each name are the same and in the same order. -/
theorem ofDefinitions_exact (ds : List Definition) :
    let table := FunctionTable.ofDefinitions ds
    (∀ f function, table.lookup f = .ok function ↔ Definition.IsLastIn ⟨f, function⟩ ds) ∧
      (∀ f, table.lookup f = .error (.error (.unknownFunction f)) ↔ ∀ d ∈ ds, d.name ≠ f) ∧
      (table.names.Nodup ∧ (∀ f, f ∈ table.names ↔ ∃ d ∈ ds, d.name = f) ∧
        table.names.Pairwise fun f g =>
          (ds.map Definition.name).idxOf f < (ds.map Definition.name).idxOf g) ∧
      (∃ redefined : List String,
        let events := Execution.tableEvents ds
        let warnings := events.filter (·.level = .warning)
        events = redefined.map .redefined ++ [.tableBuilt table.names] ∧
          (∀ f, redefined.count f = (ds.map Definition.name).count f - 1) ∧
          warnings.map Event.message =
            redefined.map (fun f => "function " ++ f ++ " redefined; using the later definition") ∧
          warnings = events.filter (·.shownAt .warning) ∧
          warnings.length + table.size = ds.length) ∧
      ∀ ds', (table.same (FunctionTable.ofDefinitions ds') = true ↔
          ∀ f, table.get? f = (FunctionTable.ofDefinitions ds').get? f) ∧
        (Reordered ds ds' → table.same (FunctionTable.ofDefinitions ds') = true) := by
  intro table
  have hsame (ds' : List Definition) : table.same (FunctionTable.ofDefinitions ds') = true ↔
      ∀ f, table.get? f = (FunctionTable.ofDefinitions ds').get? f :=
    FunctionTable.same_iff (FunctionTable.nodup_names_ofDefinitions ds)
      (FunctionTable.nodup_names_ofDefinitions ds')
  refine ⟨fun f function => ?_, fun f => ?_, ⟨?_, fun f => ?_, ?_⟩, ?_, fun ds' => ⟨hsame ds', ?_⟩⟩
  · rw [FunctionTable.lookup_eq_ok_iff, FunctionTable.get?_ofDefinitions_eq_some_iff]
  · rw [FunctionTable.lookup_eq_error_iff, FunctionTable.get?_ofDefinitions_eq_none_iff]
  · exact FunctionTable.nodup_names_ofDefinitions ds
  · rw [FunctionTable.mem_names_ofDefinitions, List.mem_map]
  · exact FunctionTable.pairwise_names_ofDefinitions ds
  · have hwarnings : (Execution.tableEvents ds).filter (·.level = .warning) =
        (FunctionTable.Draft.ofDefinitions ds).redefined.map .redefined :=
      filter_tableEvents (fun _ => rfl) (fun _ => rfl) ds
    have hshown : (Execution.tableEvents ds).filter (·.shownAt .warning) =
        (FunctionTable.Draft.ofDefinitions ds).redefined.map .redefined :=
      filter_tableEvents (fun _ => rfl) (fun _ => rfl) ds
    refine ⟨_, rfl, FunctionTable.count_redefined ds, ?_, hwarnings.trans hshown.symm, ?_⟩
    · rw [hwarnings, List.map_map]
      rfl
    · rw [hwarnings, List.length_map]
      exact FunctionTable.length_redefined ds
  · intro h
    refine (hsame ds').2 fun f => ?_
    rw [FunctionTable.get?_ofDefinitions, FunctionTable.get?_ofDefinitions, h.order f]

/-- A function that is defined three times, around and between the definitions of another, with
    two warnings: with the other defined first, the tables list the names in different orders
    and are equal all the same. -/
theorem ofDefinitions_exact_threeTimes :
    let first : Definition := ⟨"f", ["x"], [.var "x"]⟩
    let other : Definition := ⟨"g", [], [.call "f" [.int 1]]⟩
    let second : Definition := ⟨"f", [], [.int 2]⟩
    let last : Definition := ⟨"f", ["x", "y"], [.var "y"]⟩
    let ds := [first, other, second, last]
    let ds' := [other, first, second, last]
    (Reordered ds ds' ∧ Definition.IsLastIn last ds) ∧
      (FunctionTable.ofDefinitions ds).lookup "f" = .ok last.function ∧
      (FunctionTable.ofDefinitions ds).names = ["f", "g"] ∧
      (FunctionTable.ofDefinitions ds').names = ["g", "f"] ∧
      ((Execution.tableEvents ds).filter (·.level = .warning)).map Event.message =
        List.replicate 2 "function f redefined; using the later definition" ∧
      (FunctionTable.ofDefinitions ds).same (FunctionTable.ofDefinitions ds') = true := by
  intro first other second last ds ds'
  have hlast : last.IsLastIn ds := ⟨[first, other, second], [], rfl, by simp⟩
  have hreordered : Reordered ds ds' := by
    refine ⟨.swap _ _ _, fun f => ?_⟩
    by_cases hf : "f" = f
    · subst hf
      rfl
    · simp [ds, ds', first, other, second, last, List.filter_cons, hf]
  obtain ⟨hlookup, -, -, -, hsame⟩ := ofDefinitions_exact ds
  exact ⟨⟨hreordered, hlast⟩, (hlookup "f" last.function).2 hlast, rfl, rfl, rfl,
    (hsame ds').2 hreordered⟩

end LazyLisp
