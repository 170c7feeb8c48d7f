import BlockMachine.Proofs.Compiler.Declaring
import BlockMachine.Proofs.Compiler.History
import BlockMachine.Proofs.Script.Identifier

namespace BlockMachine

namespace Position

variable {p : Position} {k : String}

/-- The declaration of a constant without a value. -/
def placeholder (k : String) : String := "const " ++ k ++ " = undefined;"

/-- The name that a position uses or defines. -/
def mentioned? (p : Position) : Option String := p.usedConstant?.or p.defined?

theorem deed?_of_usedConstant? (h : p.usedConstant? = some k) :
    p.defined? = none ∧ identifier p.name = k ∧
      p.deed? = some (.reserve p.name (placeholder k)) := by
  have hu := h
  rw [usedConstant?] at h
  split at h
  · rename_i hp
    obtain rfl := Option.some.inj h
    have hd : p.declaration = placeholder (identifier p.name) := by
      rw [declaration, hp.2]
      rfl
    refine ⟨?_, rfl, ?_⟩
    · rw [defined?, hp.1]
      exact if_neg fun hs => absurd hs.1 (by decide)
    · rw [deed?, hu, hd]
      rfl
  · cases h

theorem deed?_of_defined? (h : p.defined? = some k) :
    p.usedConstant? = none ∧ identifier p.name = k ∧
      p.deed? = some (.register p.name p.declaration) := by
  have hd := h
  rw [defined?] at h
  split at h
  · rename_i hp
    obtain rfl := Option.some.inj h
    have hu : p.usedConstant? = none := by
      rw [usedConstant?, hp.1]
      exact if_neg fun hs => absurd hs.1 (by decide)
    refine ⟨hu, rfl, ?_⟩
    rw [deed?, hu, hd]
    rfl
  · cases h

/-- What becomes of the table depends on what is mentioned: nothing, a constant that is used, or
something that is defined. -/
theorem deed?_cases (p : Position) :
    (p.usedConstant? = none ∧ p.defined? = none ∧ p.deed? = none) ∨
    (∃ k, p.usedConstant? = some k ∧ p.defined? = none ∧ identifier p.name = k ∧
      p.deed? = some (.reserve p.name (placeholder k))) ∨
    ∃ k, p.usedConstant? = none ∧ p.defined? = some k ∧ identifier p.name = k ∧
      p.deed? = some (.register p.name p.declaration) := by
  cases hu : p.usedConstant? with
  | some k =>
    obtain ⟨hd, hk, hp⟩ := deed?_of_usedConstant? hu
    exact .inr (.inl ⟨k, rfl, hd, hk, hp⟩)
  | none =>
    cases hd : p.defined? with
    | some k =>
      obtain ⟨-, hk, hp⟩ := deed?_of_defined? hd
      exact .inr (.inr ⟨k, rfl, rfl, hk, hp⟩)
    | none =>
      refine .inl ⟨rfl, rfl, ?_⟩
      rw [deed?, hu, hd]
      rfl

/-- The table that some positions make of an empty one. -/
def entries (ps : List Position) : Table String :=
  (({} : Definitions).after (ps.filterMap deed?)).entries

theorem keys_entries (ps : List Position) :
    Table.keys (entries ps) = (ps.filterMap mentioned?).eraseDups := by
  have hm : (fun p => (deed? p).map Deed.key) = mentioned? := by
    funext p
    rcases deed?_cases p with ⟨hu, hd, hp⟩ | ⟨k, hu, hd, hk, hp⟩ | ⟨k, hu, hd, hk, hp⟩
    · rw [hp, mentioned?, hu, hd]
      rfl
    · rw [hp, mentioned?, hu, ← hk]
      rfl
    · rw [hp, mentioned?, hu, hd, ← hk]
      rfl
  rw [entries, Definitions.keys_of_deeds, List.map_filterMap, hm]

def lastDefinition? (ps : List Position) (k : String) : Option Position :=
  (ps.filter (·.defined? = some k)).getLast?

theorem registered_deeds (ps : List Position) (k : String) :
    (ps.filterMap deed?).filterMap (Deed.registered? k) =
      (ps.filter (·.defined? = some k)).map declaration := by
  induction ps with
  | nil => rfl
  | cons p ps ih =>
    rcases deed?_cases p with ⟨-, hd, hp⟩ | ⟨l, -, hd, -, hp⟩ | ⟨l, -, hd, hl, hp⟩
    · simp [hp, hd, ih]
    · rw [List.filterMap_cons_some hp, List.filterMap_cons_none rfl,
        List.filter_cons_of_neg (by simp [hd]), ih]
    · by_cases hk : l = k
      · simp [hp, hd, hl, ih, hk, Deed.registered?]
      · simp [hp, hd, hl, ih, hk, Deed.registered?]

theorem reserved_deeds (ps : List Position) (k : String) :
    ((ps.filterMap deed?).filterMap (Deed.reserved? k)).head? =
      if k ∈ ps.filterMap usedConstant? then some (placeholder k) else none := by
  induction ps with
  | nil => rfl
  | cons p ps ih =>
    rcases deed?_cases p with ⟨hu, -, hp⟩ | ⟨l, hu, -, hl, hp⟩ | ⟨l, hu, -, -, hp⟩
    · simp [hp, hu, ih]
    · by_cases hk : l = k
      · simp [hp, hu, hl, hk, Deed.reserved?]
      · simp [hp, hu, hl, ih, hk, Ne.symm hk, Deed.reserved?]
    · rw [List.filterMap_cons_some hp, List.filterMap_cons_none rfl, ih,
        List.filterMap_cons_none hu]

theorem get?_entries (ps : List Position) (k : String) :
    Table.get? (entries ps) k = ((lastDefinition? ps k).map declaration).or
      (if k ∈ ps.filterMap usedConstant? then some (placeholder k) else none) := by
  rw [entries, Definitions.get?_of_deeds, Deed.text?, registered_deeds, reserved_deeds,
    List.getLast?_map]
  rfl

/-- A text that declares a name, as a constant or as a function. -/
def Declares (text k : String) : Prop :=
  ("const " ++ k ++ " = ").toList <+: text.toList ∨ ("function " ++ k ++ "(").toList <+: text.toList

theorem prefix_append {s t : String} (h : s.toList <+: t.toList) (u : String) :
    s.toList <+: (t ++ u).toList := by
  rw [String.toList_append]
  exact h.trans (List.prefix_append _ _)

theorem declares_placeholder (k : String) : Declares (placeholder k) k := by
  have hp : placeholder k = "const " ++ k ++ " = " ++ "undefined;" := by
    rw [placeholder, show " = undefined;" = " = " ++ "undefined;" from rfl, ← String.append_assoc]
  rw [hp]
  exact .inl (prefix_append (List.prefix_refl _) _)

theorem declares_declaration (p : Position) : Declares p.declaration (identifier p.name) := by
  rw [declaration]
  split
  · right
    rw [StatementRule.functionText]
    apply prefix_append
    apply prefix_append
    apply prefix_append
    apply prefix_append
    exact List.prefix_refl _
  · split
    · left
      apply prefix_append
      apply prefix_append
      exact List.prefix_refl _
    · exact declares_placeholder (identifier p.name)

theorem valid_of_mem_entries {ps : List Position} {text : String}
    (h : (k, text) ∈ entries ps) : Identifier.Valid k ∧ Declares text k := by
  have hn : (Table.keys (entries ps)).Nodup := by
    rw [keys_entries]
    exact nodup_eraseDups _
  have hg := Table.get?_of_mem hn h
  rw [get?_entries] at hg
  cases hd : lastDefinition? ps k with
  | some q =>
    rw [hd] at hg
    have hq : q.defined? = some k := by
      have hm := List.mem_filter.1 (List.mem_of_getLast? hd)
      simpa using hm.2
    obtain ⟨-, hk, -⟩ := deed?_of_defined? hq
    obtain rfl : q.declaration = text := Option.some.inj hg
    rw [← hk]
    exact ⟨Identifier.valid_identifier q.name, declares_declaration q⟩
  | none =>
    rw [hd, Option.map_none, Option.none_or] at hg
    split at hg
    · rename_i hm
      obtain ⟨q, -, hq⟩ := List.mem_filterMap.1 hm
      obtain ⟨-, hk, -⟩ := deed?_of_usedConstant? hq
      obtain rfl : placeholder k = text := Option.some.inj hg
      exact ⟨hk ▸ Identifier.valid_identifier q.name, declares_placeholder k⟩
    · cases hg

end Position

namespace Workspace

variable {w : Workspace} {p : Program} {q : Position}

/-- Where a workspace is compiled from: the definitions beside its root, then the root. -/
def entrances (w : Workspace) : List Position :=
  (w.blocks.filter (!w.diagram.isRoot ·)).flatMap (fun top =>
    (top.stacked.filter (·.block.kind ∈ Catalog.definitionKinds)).map (⟨.statement, ·⟩)) ++
  (w.blocks.filter w.diagram.isRoot).map (⟨.root, ·⟩)

def Reads (w : Workspace) (q : Position) : Prop := ∃ p ∈ w.entrances, p.Reaches q

/-- The positions that are compiled, in the order in which they are finished. -/
def finished (w : Workspace) : List Position := w.entrances.flatMap Position.finished

theorem mem_finished_iff : q ∈ w.finished ↔ w.Reads q := by
  rw [finished, List.mem_flatMap]
  simp only [Position.mem_finished_iff]
  rfl

theorem suffix_of_finished {before after : List Position} (h : w.finished = before ++ q :: after) :
    q.parts.flatMap Position.finished <:+ before :=
  Position.suffix_of_flatMap (fun _ _ _ _ hs => Position.suffix_of_finished hs) h

theorem exists_root (h : w.compile.result = .ok p) :
    ∃ root, w.blocks.filter w.diagram.isRoot = [root] ∧
      (w.diagram.compile root (w.blocks.filter (!w.diagram.isRoot ·))).result = .ok p := by
  rw [compile, Diagram.compileAll] at h
  split at h
  · rename_i root hr
    refine ⟨root, ?_, h⟩
    rw [Diagram.root] at hr
    split at hr
    · cases hr
    · cases hr
      assumption
    · cases hr
  · cases h

theorem definitions_eq (h : w.compile.result = .ok p) :
    p.definitions = Position.entries w.finished := by
  obtain ⟨root, hr, h⟩ := exists_root h
  have hm : root ∈ w.blocks.filter w.diagram.isRoot := by
    rw [hr]
    exact List.mem_singleton_self root
  have he : Position.entrances root (w.blocks.filter (!w.diagram.isRoot ·)) = w.entrances := by
    rw [entrances, hr]
    rfl
  have hd := Tree.compile_definitions (List.mem_filter.1 hm).1
    (fun t ht => (List.mem_filter.1 ht).1) h
  rw [hd, he]
  rfl

theorem not_faulty_of_reads (h : w.compile.result = .ok p) (hq : w.Reads q) (f : Fault) :
    ¬ q.Faulty f := by
  obtain ⟨root, hr, h⟩ := exists_root h
  have hm : root ∈ w.blocks.filter w.diagram.isRoot := by
    rw [hr]
    exact List.mem_singleton_self root
  obtain ⟨e, he, hq⟩ := hq
  intro hf
  have hd := Tree.compile_detects (List.mem_filter.1 hm).1
    (fun t (ht : t ∈ w.blocks.filter (!w.diagram.isRoot ·)) => (List.mem_filter.1 ht).1)
  apply hd.1.1 ⟨p, h⟩ f
  refine ⟨e, ?_, q, hq, hf⟩
  rw [entrances, hr] at he
  rcases List.mem_append.1 he with he | he
  · exact List.mem_cons_of_mem _ he
  · rw [List.mem_singleton.1 he]
    exact List.mem_cons_self

theorem expression_of_use {t : Tree} (hk : t.block.kind = "custom_constant_get")
    (hf : ∀ f, ¬ (Position.mk .value t).Faulty f) :
    (w.diagram.generator.expression t).start.result =
      .ok ⟨identifier (t.block.fieldTextD "NAME" ""), .atomic⟩ := by
  have hm : t.block.kind ∈ Place.value.kinds := by
    rw [hk]
    decide
  have hr : t.block.required = ["NAME"] := by
    rw [Block.required, hk]
    rfl
  cases hn : t.block.fieldText "NAME" with
  | error f => exact absurd (.broken hm (Block.breaks_of_fieldText hr hn)) (hf f)
  | ok name =>
    have ho : ValueRule.ofKind? (w.diagram.block t).kind = some .constant := by
      change ValueRule.ofKind? t.block.kind = _
      rw [hk]
      rfl
    have ht : ValueRule.constant.template (w.diagram.block t) =
        .ok { ValueRule.atom (identifier name) with
          reserves := some (name, "const " ++ identifier name ++ " = undefined;") } := by
      change (t.block.fieldText "NAME").map _ = _
      rw [hn]
      rfl
    rw [Block.fieldTextD_of_fieldText hn, Compile.result_start, Diagram.generator,
      Generator.expression_succ, ho]
    dsimp only
    rw [ht, Compile.visiting, show w.diagram.seen t _ = false from Tree.seen_diagram _ _ _]
    generalize identifier name = k
    change Except.ok (⟨k ++ "", .atomic⟩ : Expression) = _
    rw [String.append_empty]

/-- Names are declared once, under identifiers that are free, and with texts that declare them.
Every constant that is used anywhere is declared. -/
theorem definitions_declare (h : w.compile.result = .ok p) :
    (Table.keys p.definitions).Nodup ∧
    (∀ k text, (k, text) ∈ p.definitions → Identifier.Valid k ∧ Position.Declares text k) ∧
    ∀ t : Tree, w.Reads ⟨.value, t⟩ → t.block.kind = "custom_constant_get" →
      ∃ k ∈ Table.keys p.definitions,
        (w.diagram.generator.expression t).start.result = .ok ⟨k, .atomic⟩ := by
  rw [definitions_eq h]
  refine ⟨?_, fun k text hm => Position.valid_of_mem_entries hm, ?_⟩
  · rw [Position.keys_entries]
    exact nodup_eraseDups _
  · intro t ht hk
    refine ⟨_, ?_, expression_of_use hk (not_faulty_of_reads h ht)⟩
    rw [Position.keys_entries, List.mem_eraseDups]
    refine List.mem_filterMap.2 ⟨_, mem_finished_iff.2 ht, ?_⟩
    have hu : (Position.mk .value t).usedConstant? =
        some (identifier (t.block.fieldTextD "NAME" "")) :=
      if_pos ⟨rfl, hk⟩
    rw [Position.mentioned?, hu]
    rfl

end Workspace

namespace Tree

def constant (name : String) : Tree :=
  .node { kind := "custom_constant_get", fields := [("NAME", .text name)] } [] [] none

def define (name : String) (value : Tree) : Tree :=
  .node { kind := "custom_constant_define", fields := [("NAME", .text name)] }
    [("VALUE", some value)] [] none

def null : Tree := .node { kind := "logic_null" } [] [] none

def stateless : Tree :=
  .node { kind := "ai_definition", fields := [("INITIAL_STATE", .text "idle")] } [] [] none

end Tree

namespace Workspace

/-- A constant that is used before it is defined, under another spelling. -/
def respelled : Workspace :=
  ⟨[.define "far" (.constant "max range"), .define "max-range" .null, .stateless]⟩

theorem respelled_declares :
    ∃ p, respelled.compile.result = .ok p ∧
      p.definitions =
        [("max_range", "const max_range = null;"), ("far", "const far = max_range;")] ∧
      Identifier.Valid "max_range" ∧ Position.Declares "const max_range = null;" "max_range" ∧
      respelled.Reads ⟨.value, .constant "max range"⟩ ∧
      ∃ k ∈ Table.keys p.definitions,
        (respelled.diagram.generator.expression (.constant "max range")).start.result =
          .ok ⟨k, .atomic⟩ := by
  have hp : respelled.compile.result = .ok
      { definitions :=
          [("max_range", "const max_range = null;"), ("far", "const far = max_range;")]
        initialState := "idle", states := [], tactical := [], emergency := [] } := rfl
  have hf : respelled.finished.head? = some ⟨.value, .constant "max range"⟩ := by
    with_unfolding_all rfl
  have hr : respelled.Reads ⟨.value, .constant "max range"⟩ :=
    mem_finished_iff.1 (List.mem_of_head? hf)
  obtain ⟨-, hd, hu⟩ := definitions_declare hp
  obtain ⟨hv, ht⟩ := hd "max_range" "const max_range = null;" List.mem_cons_self
  exact ⟨_, hp, rfl, hv, ht, hr, hu _ hr rfl⟩

end Workspace

end BlockMachine
