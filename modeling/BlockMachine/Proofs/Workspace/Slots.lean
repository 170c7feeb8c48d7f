import BlockMachine.Proofs.Workspace.Declarations

namespace BlockMachine

theorem sublist_eraseDups_iff {before after : List String} {c d : String} (hc : c ∉ before) :
    [d, c].Sublist (before ++ c :: after).eraseDups ↔ d ∈ before := by
  have hs : ∃ rest, (before ++ c :: after).eraseDups = before.eraseDups ++ c :: rest := by
    rw [List.eraseDups_append, List.removeAll, List.filter_cons_of_pos (by simpa using hc),
      List.eraseDups_cons]
    exact ⟨_, rfl⟩
  obtain ⟨rest, hs⟩ := hs
  have hn := nodup_eraseDups (before ++ c :: after)
  rw [hs] at hn ⊢
  constructor
  · intro h
    obtain ⟨l₁, l₂, hl, h₁, h₂⟩ := List.sublist_append_iff.1 h
    cases l₁ with
    | nil =>
      -- Both would have to stand from `c` on, and `c` only once.
      cases hl
      have hr : c ∈ rest := (List.cons_sublist_cons'.1 h₂).elim
        (fun h => (h.subset (List.mem_cons_of_mem _ (List.mem_singleton_self c))))
        fun h => List.singleton_sublist.1 h.2
      exact absurd hr (List.nodup_cons.1 (List.nodup_append.1 hn).2.1).1
    | cons e l₁ =>
      obtain rfl : d = e := (List.cons.inj hl).1
      exact List.mem_eraseDups.1 (h₁.subset List.mem_cons_self)
  · intro h
    exact (List.singleton_sublist.2 (List.mem_eraseDups.2 h)).append
      (List.singleton_sublist.2 List.mem_cons_self)

namespace Workspace

variable {w : Workspace} {p : Program} {c d : String}

def mention? (w : Workspace) (k : String) : Option Position :=
  w.finished.find? (·.mentioned? = some k)

def definition? (w : Workspace) (k : String) : Option Position :=
  Position.lastDefinition? w.finished k

def declaration (w : Workspace) (k : String) : String :=
  match w.definition? k with
  | none => Position.placeholder k
  | some q => q.declaration

/-- The constants that are used in the value of a constant, as it was last defined. -/
def dependencies (w : Workspace) (k : String) : List String :=
  match w.definition? k with
  | none => []
  | some q => (q.parts.flatMap Position.finished).filterMap Position.usedConstant?

/-- The names that are mentioned before a name is. -/
def earlier (w : Workspace) (k : String) : List String :=
  (w.finished.takeWhile (·.mentioned? ≠ some k)).filterMap Position.mentioned?

theorem get?_definitions {k : String} (h : w.compile.result = .ok p)
    (hk : k ∈ Table.keys p.definitions) :
    Table.get? p.definitions k = some (w.declaration k) := by
  rw [definitions_eq h] at hk ⊢
  have hg := Position.get?_entries w.finished k
  rw [declaration, definition?]
  cases hd : Position.lastDefinition? w.finished k with
  | some q =>
    rw [hg, hd]
    rfl
  | none =>
    rw [hd, Option.map_none, Option.none_or] at hg
    split at hg
    · exact hg
    · exact absurd hk (Table.get?_eq_none_iff.1 hg)

theorem exists_mention {q : Position} (h : w.mention? c = some q) :
    ∃ before after, w.finished = before ++ q :: after ∧ q.mentioned? = some c ∧
      before.filterMap Position.mentioned? = w.earlier c ∧
      c ∉ before.filterMap Position.mentioned? := by
  obtain ⟨hq, before, after, hw, hb⟩ := List.find?_eq_some_iff_append.1 h
  have hq : q.mentioned? = some c := of_decide_eq_true hq
  have hb (a : Position) (ha : a ∈ before) : a.mentioned? ≠ some c := by
    simpa using hb a ha
  refine ⟨before, after, hw, hq, ?_, ?_⟩
  · rw [earlier, hw, List.takeWhile_append_of_pos fun a ha => decide_eq_true (hb a ha),
      List.takeWhile_cons_of_neg (by simpa using hq), List.append_nil]
  · intro hm
    obtain ⟨a, ha, he⟩ := List.mem_filterMap.1 hm
    exact hb a ha he

theorem sublist_keys_iff (h : w.compile.result = .ok p) (hc : c ∈ Table.keys p.definitions) :
    [d, c].Sublist (Table.keys p.definitions) ↔ d ∈ w.earlier c := by
  rw [definitions_eq h, Position.keys_entries] at hc ⊢
  obtain ⟨q, hq, hm⟩ := List.mem_filterMap.1 (List.mem_eraseDups.1 hc)
  cases hf : w.mention? c with
  | none => exact absurd hm (by simpa using List.find?_eq_none.1 hf q hq)
  | some r =>
    obtain ⟨before, after, hw, hr, he, hn⟩ := exists_mention hf
    have hs : w.finished.filterMap Position.mentioned? =
        w.earlier c ++ c :: after.filterMap Position.mentioned? := by
      rw [hw, List.filterMap_append, List.filterMap_cons_some hr, he]
    rw [hs]
    exact sublist_eraseDups_iff (he ▸ hn)

theorem mem_earlier_of_mem_dependencies (hd : d ∈ w.dependencies c)
    (hm : w.mention? c = w.definition? c) : d ∈ w.earlier c := by
  rw [dependencies] at hd
  cases hq : w.definition? c with
  | none =>
    rw [hq] at hd
    cases hd
  | some q =>
    rw [hq] at hd hm
    obtain ⟨before, after, hw, -, he, -⟩ := exists_mention hm
    obtain ⟨r, hr, hu⟩ := List.mem_filterMap.1 hd
    rw [← he]
    refine List.mem_filterMap.2 ⟨r, (suffix_of_finished hw).subset hr, ?_⟩
    rw [Position.mentioned?, hu]
    rfl

/-- Declarations stand in the order in which their names are first mentioned, with the texts of
their last definitions. A constant stands behind what its value uses if its last definition is the
first that is heard of it. -/
theorem declarations_in_order_of_mention (h : w.compile.result = .ok p) :
    Table.keys p.definitions = (w.finished.filterMap Position.mentioned?).eraseDups ∧
    (∀ c ∈ Table.keys p.definitions, Table.get? p.definitions c = some (w.declaration c) ∧
      ∀ d, [d, c].Sublist (Table.keys p.definitions) ↔ d ∈ w.earlier c) ∧
    ∀ c d, d ∈ w.dependencies c → w.mention? c = w.definition? c →
      [d, c].Sublist (Table.keys p.definitions) := by
  have hk : Table.keys p.definitions = (w.finished.filterMap Position.mentioned?).eraseDups := by
    rw [definitions_eq h, Position.keys_entries]
  refine ⟨hk, fun c hc => ⟨get?_definitions h hc, fun d => sublist_keys_iff h hc⟩, ?_⟩
  intro c d hd hm
  have hc : c ∈ Table.keys p.definitions := by
    rw [hk, List.mem_eraseDups]
    cases hq : w.mention? c with
    | none =>
      rw [dependencies, ← hm, hq] at hd
      cases hd
    | some q =>
      obtain ⟨before, after, hw, hq, -⟩ := exists_mention hq
      refine List.mem_filterMap.2 ⟨q, ?_, hq⟩
      rw [hw]
      exact List.mem_append_right before List.mem_cons_self
  exact (sublist_keys_iff h hc).2 (mem_earlier_of_mem_dependencies hd hm)

theorem respelled_in_order :
    ∃ p, respelled.compile.result = .ok p ∧ respelled.dependencies "far" = ["max_range"] ∧
      respelled.mention? "far" = respelled.definition? "far" ∧
      ["max_range", "far"].Sublist (Table.keys p.definitions) := by
  have hp : respelled.compile.result = .ok
      { definitions :=
          [("max_range", "const max_range = null;"), ("far", "const far = max_range;")]
        initialState := "idle", states := [], tactical := [], emergency := [] } := rfl
  have hd : respelled.dependencies "far" = ["max_range"] := by decide +kernel
  have hm : respelled.mention? "far" = respelled.definition? "far" := by with_unfolding_all rfl
  have hs := (declarations_in_order_of_mention hp).2.2 "far" "max_range"
  rw [hd] at hs
  exact ⟨_, hp, hd, hm, hs List.mem_cons_self hm⟩

/-- The first constant needs the third one, and that one needs the second. -/
def crossed : Workspace :=
  ⟨[.stateless, .define "c" (.constant "a"), .define "b" .null, .define "a" (.constant "b")]⟩

/-- No constant needs itself, and still `a` stands before the constant that its value uses: it is
mentioned by `c` before `b` is. -/
theorem crossed_out_of_order :
    ∃ p, crossed.compile.result = .ok p ∧
      p.definitions =
        [("a", "const a = b;"), ("c", "const c = a;"), ("b", "const b = null;")] ∧
      crossed.dependencies "c" = ["a"] ∧ crossed.dependencies "a" = ["b"] ∧
      crossed.dependencies "b" = [] ∧ ¬ ["b", "a"].Sublist (Table.keys p.definitions) := by
  have hp : crossed.compile.result = .ok
      { definitions := [("a", "const a = b;"), ("c", "const c = a;"), ("b", "const b = null;")]
        initialState := "idle", states := [], tactical := [], emergency := [] } := rfl
  obtain ⟨hc, ha, hb⟩ : crossed.dependencies "c" = ["a"] ∧ crossed.dependencies "a" = ["b"] ∧
      crossed.dependencies "b" = [] := by decide +kernel
  exact ⟨_, hp, rfl, hc, ha, hb, by decide⟩

end Workspace

end BlockMachine
