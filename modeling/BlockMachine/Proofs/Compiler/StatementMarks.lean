import BlockMachine.Proofs.Compiler.Awaiting
import BlockMachine.Proofs.Compiler.ValueMarks

namespace BlockMachine

open Outline

variable {ρ : Type}

/-- The marks of each statement of a stack that has a text. -/
def Diagram.stackMarks (d : Diagram ρ) (statement : ρ → Option (List Mark)) (top : Option ρ) :
    List (List Mark) :=
  match d.stack top with
  | .error _ => []
  | .ok rs => rs.filterMap statement

namespace StatementRule

/-- The names in the position of a move are in the scope of a constant. -/
def inlineMarks (kind : String) (slot : String → String → List Mark) (parts : List Part) :
    List Mark :=
  let ks := parts.flatMap (Part.marks .script slot)
  if kind = "api_move_to" then ks.map .moved else ks

variable (d : Diagram ρ) (value : ρ → List Mark) (statement : ρ → Option (List Mark)) (b : Block ρ)

/-- The steps up to the first return are in a function, and the return stands behind it. -/
def sequenceMarks (rs : List ρ) : Option (List Mark) :=
  let steps := rs.takeWhile fun r => (d.block r).kind ≠ Catalog.returnStateKind
  let kss := steps.filterMap statement
  let exit := if rs.any fun r => (d.block r).kind = Catalog.returnStateKind then some [.exit 0]
    else none
  if kss.isEmpty then exit else some (.script "async" :: kss.flatten.map .deeper ++ exit.getD [])

def branchMarks (i : Nat) : List Mark :=
  slotMarks value b ("IF" ++ decimalText i) "false" ++
    (d.stackMarks statement (b.head? ("DO" ++ decimalText i))).flatten

def assignmentMarks (socket : String) : Option (List Mark) :=
  match b.fieldText "VAR_NAME" with
  | .error _ => none
  | .ok name => some (.author (identifier name) false :: slotMarks value b socket "0")

/-- What is mentioned in the text that a rule gives, if it gives one. -/
def marks : StatementRule → Option (List Mark)
  | .inline parts => some (inlineMarks b.kind (slotMarks value b) parts)
  | .actionSequence =>
    match d.stack (b.head? "DO") with
    | .error _ => none
    | .ok rs => sequenceMarks d statement rs
  | .setMemory => some (.script "updateMemory" :: slotMarks value b "VALUE" "null")
  | .branches =>
    match branchIndices b with
    | .error _ => none
    | .ok is => some (is.flatMap (branchMarks d value statement b) ++
        if hasElse b then (d.stackMarks statement (b.head? "ELSE")).flatten else [])
  | .scope =>
    let kss := d.stackMarks statement (b.head? "VARIABLES") ++
      d.stackMarks statement (b.head? "BODY")
    if kss.isEmpty then none else some kss.flatten
  | .declareVariable => assignmentMarks value b "INITIAL_VALUE"
  | .setVariable => assignmentMarks value b "VALUE"
  | .returnState => some [.exit 0]
  | .defineConstant | .defineFunction => none
  | .transition =>
    some (.script "target" :: .script "condition" :: slotMarks value b "CONDITION" "false")

end StatementRule

/-- What is mentioned in the text of a statement block, from left to right. -/
def Diagram.statementMarks (d : Diagram ρ) : Nat → ρ → Option (List Mark)
  | 0, _ => none
  | depth + 1, r =>
    (StatementRule.ofKind? (d.block r).kind).bind
      (StatementRule.marks d (d.valueMarks depth) (d.statementMarks depth) (d.block r))

/-- A text with the given marks, or none at all. -/
def Writes (s : String) : Option (List Mark) → Prop
  | none => s = ""
  | some ks => IsCode s ks ∧ allBlank s = false

theorem Writes.isCode {s : String} {ks : Option (List Mark)} (h : Writes s ks) :
    IsCode s (ks.getD []) := by
  cases ks with
  | none =>
    cases h
    exact isCode_empty
  | some ks => exact h.1

theorem allBlank_append (s t : String) : allBlank (s ++ t) = (allBlank s && allBlank t) := by
  rw [allBlank, String.toList_append, Text.isAllBlank, List.all_append]
  rfl

theorem not_allBlank {t : String} (s : String) (h : allBlank t = false) :
    allBlank (s ++ t) = false := by
  rw [allBlank_append, h, Bool.and_false]

section Stacks

variable {statement : ρ → Option (List Mark)} {qs : List (Passage ρ String)}

theorem isCode_of_writes (h : ∀ q ∈ qs, Writes q.result (statement q.ref)) {p : String → Bool}
    (he : p "" = false) (hp : ∀ s, allBlank s = false → p s = true) :
    List.Forall₂ (fun s ks => IsCode s ks ∧ allBlank s = false) ((qs.map (·.result)).filter p)
      ((qs.map (·.ref)).filterMap statement) := by
  induction qs with
  | nil => exact .nil
  | cons q qs ih =>
    obtain ⟨hq, hqs⟩ := List.forall_mem_cons.1 h
    rw [List.map_cons, List.map_cons]
    cases hs : statement q.ref with
    | none =>
      rw [hs] at hq
      rw [List.filterMap_cons_none hs, List.filter_cons_of_neg (by rw [hq, he]; decide)]
      exact ih hqs
    | some ks =>
      rw [hs] at hq
      rw [List.filterMap_cons_some hs, List.filter_cons_of_pos (hp _ hq.2)]
      exact .cons hq (ih hqs)

theorem closeScope_ne_empty {s : String} (h : s ≠ "") : Fragment.closeScope s ≠ "" := by
  rw [Fragment.closeScope]
  split
  · rw [Ne, String.append_eq_empty_iff]
    rintro ⟨-, hs⟩
    exact absurd hs (by decide)
  · exact h

theorem isCode_joinSteps (h : ∀ q ∈ qs, Writes q.result (statement q.ref)) :
    IsCode (Generator.joinSteps (qs.map (·.result)))
        ((qs.map (·.ref)).filterMap statement).flatten ∧
      (Generator.joinSteps (qs.map (·.result)) = "" ↔
        (qs.map (·.ref)).filterMap statement = []) := by
  have hne (s : String) (hs : allBlank s = false) : s ≠ "" := by
    rintro rfl
    cases hs
  have hw := isCode_of_writes h (p := (· != "")) (by decide) fun s hs => bne_iff_ne.2 (hne s hs)
  constructor
  · apply isCode_join
    rw [List.forall₂_map_left_iff]
    exact hw.imp fun s ks hs => hs.1.closeScope
  · rw [Generator.joinSteps]
    generalize (qs.map (·.result)).filter (· != "") = ss,
      (qs.map (·.ref)).filterMap statement = kss at hw ⊢
    cases hw with
    | nil => exact ⟨fun _ => rfl, fun _ => rfl⟩
    | cons hs _ =>
      rw [List.map_cons, String.join_cons, String.append_eq_empty_iff]
      refine iff_of_false ?_ (by simp)
      rintro ⟨he, -⟩
      exact closeScope_ne_empty (hne _ hs.2) he

end Stacks

namespace StatementRule

/-- Parts that make up a statement of the kind, whatever stands in the slots. -/
structure Phrases (kind : String) (parts : List Part) : Prop where
  defaults : ∀ part ∈ parts, part.isScript = true
  code {slot : String → String → List Mark} {texts : List String} :
    List.Forall₂ (Part.Shows slot) parts texts →
      Writes (String.join texts) (some (inlineMarks kind slot parts))

def IsPhrased (kind : String) (rule : StatementRule) : Prop :=
  ∀ parts, rule = .inline parts → Phrases kind parts

theorem isPhrased_fixed {kind : String} {l : List Char} (hk : kind ≠ "api_move_to")
    (hl : isScriptCode l = true) (hb : Text.isAllBlank l = false) :
    (fixed (String.ofList l)).IsPhrased kind := by
  rintro _ ⟨⟩
  refine ⟨List.forall_mem_singleton.2 rfl, fun {slot texts} ht => ?_⟩
  obtain _ | ⟨rfl, _ | _⟩ := ht
  rw [inlineMarks, if_neg hk, String.join_cons, String.join_nil, String.append_empty]
  refine ⟨?_, by rw [allBlank, String.toList_ofList, hb]⟩
  change IsCode _ (_ ++ [])
  rw [List.append_nil]
  exact isCode_of_literal hl

theorem isPhrased_call {kind function default : String} (hk : kind ≠ "api_move_to")
    (hf : isScriptOpener .round (function ++ "(").toList = true)
    (hd : isScriptValue default.toList = true) (socket : String) (context : Order) :
    (call function socket context default).IsPhrased kind := by
  rintro _ ⟨⟩
  refine ⟨List.forall_mem_cons.2 ⟨rfl, List.forall_mem_cons.2 ⟨hd,
    List.forall_mem_singleton.2 rfl⟩⟩, fun {slot texts} ht => ?_⟩
  obtain _ | ⟨rfl, _ | @⟨_, e, _, _, he, _ | ⟨rfl, _ | _⟩⟩⟩ := ht
  have ho := (IsValue.isTold he).opened (r := ")") hf (by decide)
  have hc := ho.close_silent (t := ";\n") (by decide) (by decide)
  have hj : String.join [function ++ "(", e, ");\n"] =
      function ++ "(" ++ e ++ ")" ++ ";\n" := by
    apply String.toList_injective
    simp
  rw [inlineMarks, if_neg hk, hj]
  refine ⟨?_, not_allBlank _ (by decide)⟩
  simpa [Part.marks, scripted, show names ");\n" = [] by decide,
    show names ")" = [] by decide] using hc

theorem isPhrased_moveTo : moveTo.IsPhrased "api_move_to" := by
  rintro _ ⟨⟩
  refine ⟨by decide, fun {slot texts} ht => ?_⟩
  obtain _ | ⟨rfl, _ | @⟨_, e, _, _, he, _ | ⟨rfl, _ | _⟩⟩⟩ := ht
  have hc := IsCode.positioned (IsValue.close he
    (t := ";\n  if (pos) api.moveTo(pos.x, pos.y);\n") (by decide))
  have hj : String.join
      ["\x7b\n  const pos = ", e, ";\n  if (pos) api.moveTo(pos.x, pos.y);\n\x7d\n"] =
        "\x7b\n  const pos = " ++ (e ++ ";\n  if (pos) api.moveTo(pos.x, pos.y);\n") ++
          "\x7d\n" := by
    apply String.toList_injective
    simp
  have hl : names "\x7b\n  const pos = " = ["pos"] := by decide
  have hr : names ";\n  if (pos) api.moveTo(pos.x, pos.y);\n\x7d\n" =
      names ";\n  if (pos) api.moveTo(pos.x, pos.y);\n" := by decide
  rw [inlineMarks, if_pos rfl, hj]
  exact ⟨by simpa [Part.marks, scripted, hl, hr, Mark.moved] using hc, not_allBlank _ (by decide)⟩

theorem isPhrased_stateReference {kind : String} (hk : kind ≠ "api_move_to") :
    stateReference.IsPhrased kind := by
  rintro _ ⟨⟩
  refine ⟨by decide, fun {slot texts} ht => ?_⟩
  obtain _ | ⟨he, _ | ⟨rfl, _ | _⟩⟩ := ht
  have hc := IsValue.close he (t := ",") (by decide)
  rw [inlineMarks, if_neg hk]
  refine ⟨by simpa [Part.marks, String.join_cons, scripted] using hc, ?_⟩
  rw [String.join_cons]
  exact not_allBlank _ (by decide)

set_option maxRecDepth 4096 in
theorem isPhrased_table : ∀ e ∈ table, e.2.IsPhrased e.1 := by
  unfold table moveRandom aimAtEnemy
  repeat refine List.forall_mem_cons.2 ⟨by first
    | exact isPhrased_fixed (by decide) (by decide) (by decide)
    | exact isPhrased_call (by decide) (by decide) (by decide) _ _
    | exact isPhrased_moveTo | exact isPhrased_stateReference (by decide)
    | (rintro _ ⟨⟩), ?_⟩
  simp

end StatementRule

namespace Generator

theorem writes_return {b : Block ρ} {c c' : Context ρ} {s : String}
    (h : StatementRule.returnState.run b c = .ok s c') : Writes s (some [.exit 0]) := by
  obtain ⟨name, _, -, h⟩ := Compile.bind_eq_ok.1 h
  obtain ⟨rfl, -⟩ := Compile.pure_eq_ok.1 h
  exact ⟨isCode_return name, not_allBlank _ (by decide)⟩

/-- The texts of values and statements have the given marks. -/
structure Marked (g : Generator ρ) (value : ρ → List Mark) (statement : ρ → Option (List Mark)) :
    Prop extends g.Marks value where
  plain : ∀ r, ∀ k ∈ value r, Mark.isValue k = true
  statements {r : ρ} {c c' : Context ρ} {s : String} : g.statement r c = .ok s c' →
    Writes s (statement r)
  exits {r : ρ} {c c' : Context ρ} {s : String} :
    (g.diagram.block r).kind = Catalog.returnStateKind → g.statement r c = .ok s c' →
      Writes s (some [.exit 0])

variable {g : Generator ρ} {value : ρ → List Mark} {statement : ρ → Option (List Mark)}
  (h : g.Marked value statement) {b : Block ρ} {c c' : Context ρ} {s : String}

namespace Marked

include h

theorem steps {top : Option ρ} {qs : List (Passage ρ String)}
    (hr : g.diagram.stack top = .ok (qs.map (·.ref))) (hq : ∀ q ∈ qs, q.Runs g.statement) :
    IsCode (joinSteps (qs.map (·.result))) (g.diagram.stackMarks statement top).flatten ∧
      (joinSteps (qs.map (·.result)) = "" ↔ g.diagram.stackMarks statement top = []) := by
  rw [Diagram.stackMarks, hr]
  exact isCode_joinSteps fun q hm => h.statements (hq q hm)

theorem sequence {top : Option ρ} (hs : g.sequence top c = .ok s c') :
    IsCode s (g.diagram.stackMarks statement top).flatten ∧
      (s = "" ↔ g.diagram.stackMarks statement top = []) := by
  obtain ⟨qs, hr, -, hq, rfl⟩ := sequence_eq_ok hs
  exact h.steps hr hq

theorem actionSequence (hs : StatementRule.actionSequence.run g b c = .ok s c') :
    Writes s (StatementRule.marks g.diagram value statement b .actionSequence) := by
  obtain ⟨rs, lines, exit, c₁, hr, hl, rfl⟩ := StatementRule.actionSequence_eq_ok hs
  obtain ⟨qs, c₂, -, hq, hrefs, rfl, he⟩ := StatementRule.steps_eq_ok hl
  have hw := isCode_of_writes (fun q hm => h.statements (hq q hm)) (p := (!allBlank ·)) (by decide)
    (fun s hs => by rw [hs]; rfl)
  have hexit : Writes exit (if rs.any fun r =>
      (g.diagram.block r).kind = Catalog.returnStateKind then some [.exit 0] else none) := by
    rcases he with ⟨ha, rfl⟩ | ⟨r, hm, hk, c₃, he⟩
    · rw [if_neg (by simpa using ha)]
      rfl
    · rw [if_pos (List.any_eq_true.2 ⟨r, hm, by simpa using hk⟩)]
      exact h.exits hk he
  rw [StatementRule.marks, hr]
  dsimp only
  rw [StatementRule.sequenceMarks, ← hrefs, StatementRule.sequenceText, StatementRule.sequenceLines]
  generalize (qs.map (·.result)).filter (!allBlank ·) = ss,
    (qs.map (·.ref)).filterMap statement = kss at hw ⊢
  have hj := isCode_join (List.forall₂_map_left_iff.2 (hw.imp fun _ _ hs => hs.1.awaited))
  -- the function is there exactly if some step has a text
  cases hw with
  | nil => exact hexit
  | cons hs _ =>
    refine ⟨hj.isTold.indented.async.append hexit.isCode, ?_⟩
    rw [List.map_cons, List.isEmpty_cons, if_neg (by decide), allBlank_append, allBlank_append,
      allBlank_append]
    rfl

theorem setMemory (hs : StatementRule.setMemory.run g b c = .ok s c') :
    Writes s (StatementRule.marks g.diagram value statement b .setMemory) := by
  obtain ⟨key, _, -, hs⟩ := Compile.bind_eq_ok.1 hs
  obtain ⟨e, _, hv, hs⟩ := Compile.bind_eq_ok.1 hs
  obtain ⟨rfl, -⟩ := Compile.pure_eq_ok.1 hs
  have hv := h.slot (by decide) hv
  have hk := isCode_empty.isValue.group (isValue_quoted key).isTold (l := "[") (r := "]")
    (b := .square) (by decide) (by decide)
  have hp := (hk.close (t := ": ") (by decide)).append_value hv
  have hb := hp.isTold.braces (l := "\x7b ") (r := " \x7d") (by decide) (by decide)
  have ho := hb.isTold.opened (b := .round) (l := "api.updateMemory(") (r := ")")
    (by decide) (by decide)
  have hc := ho.close (t := ";\n") (by decide)
  have hj : "api.updateMemory(\x7b [" ++ quoted key ++ "]: " ++ e.text ++ " \x7d);\n" =
      "api.updateMemory(" ++
        ("\x7b " ++ ("" ++ "[" ++ quoted key ++ "]" ++ ": " ++ e.text) ++ " \x7d") ++ ")" ++
          ";\n" := by
    apply String.toList_injective
    simp
  refine ⟨?_, not_allBlank _ (by decide)⟩
  rw [hj]
  simpa [scripted, show names "api.updateMemory(" = ["updateMemory"] by decide,
    show names ": " = [] by decide, show names ")" = [] by decide,
    show names ";\n" = [] by decide] using hc

theorem chain {xs : List (Branch ρ)} (hc : Branch.Chain g b c xs c') :
    List.Forall₂ IsCode (xs.map Branch.text)
      ((xs.map (·.index)).map (StatementRule.branchMarks g.diagram value statement b)) := by
  induction hc with
  | nil => exact .nil
  | cons hx _ ih =>
    exact .cons ((h.steps hx.body hx.body_runs).1.branch
      (h.shown (by decide) hx.condition hx.condition_runs)) ih

theorem ends {last : Option (List (Passage ρ String))} (he : Branch.Ends g b c last c') :
    IsCode (Branch.elseText last) (if StatementRule.hasElse b then
      (g.diagram.stackMarks statement (b.head? "ELSE")).flatten else []) := by
  rw [← he.isSome]
  cases last with
  | none => exact isCode_of_script (s := "\n") (by decide)
  | some qs =>
    have hb := (h.steps (he.body qs rfl) he.runs).1.isTold.indented.braces (l := "\x7b\n")
      (r := "\x7d\n") (by decide) (by decide)
    have ha := isCode_else.append hb
    rw [← String.append_assoc, ← String.append_assoc] at ha
    exact ha

theorem branches (hs : StatementRule.branches.run g b c = .ok s c') :
    Writes s (StatementRule.marks g.diagram value statement b .branches) := by
  have hn : allBlank s = false := by
    obtain ⟨cs, hp⟩ := StatementRule.branches_eq_ok hs
    rw [allBlank, ← hp]
    rfl
  obtain ⟨xs, last, c₁, hi, hc, he, rfl⟩ := Branch.of_branches hs
  have hx := isCode_intercalate isCode_else (h.chain hc)
  rw [StatementRule.marks, hi]
  exact ⟨hx.append (h.ends he), hn⟩

theorem scope (hs : StatementRule.scope.run g b c = .ok s c') :
    Writes s (StatementRule.marks g.diagram value statement b .scope) := by
  obtain ⟨declared, c₁, hd, hs⟩ := Compile.bind_eq_ok.1 hs
  obtain ⟨body, c₂, hb, hs⟩ := Compile.bind_eq_ok.1 hs
  obtain ⟨rfl, -⟩ := Compile.pure_eq_ok.1 hs
  obtain ⟨hcd, hed⟩ := h.sequence hd
  obtain ⟨hcb, heb⟩ := h.sequence hb
  have hn : (g.diagram.stackMarks statement (b.head? "VARIABLES") ++
      g.diagram.stackMarks statement (b.head? "BODY")).isEmpty = true ↔
        declared = "" ∧ body = "" := by
    rw [List.isEmpty_iff, List.append_eq_nil_iff, hed, heb]
  rw [StatementRule.marks]
  by_cases hw : declared = "" ∧ body = ""
  · rw [if_pos hw, if_pos (hn.2 hw)]
    rfl
  · rw [if_neg hw, if_neg (mt hn.1 hw), List.flatten_append]
    exact ⟨(hcd.append hcb).isTold.indented.braces (by decide) (by decide),
      not_allBlank _ (by decide)⟩

theorem declareVariable (hs : StatementRule.declareVariable.run g b c = .ok s c') :
    Writes s (StatementRule.marks g.diagram value statement b .declareVariable) := by
  obtain ⟨name, _, hl, hs⟩ := Compile.bind_eq_ok.1 hs
  obtain ⟨hn, rfl⟩ := Compile.lift_eq_ok.1 hl
  obtain ⟨e, _, hv, hs⟩ := Compile.bind_eq_ok.1 hs
  obtain ⟨rfl, -⟩ := Compile.pure_eq_ok.1 hs
  have hl : IsCode "let " [] := isCode_of_script (by decide)
  have hc := hl.append ((h.slot (by decide) hv).assigned name)
  rw [StatementRule.marks, StatementRule.assignmentMarks, hn]
  exact ⟨by simpa [String.append_assoc] using hc, not_allBlank _ (by decide)⟩

theorem setVariable (hs : StatementRule.setVariable.run g b c = .ok s c') :
    Writes s (StatementRule.marks g.diagram value statement b .setVariable) := by
  obtain ⟨name, _, hl, hs⟩ := Compile.bind_eq_ok.1 hs
  obtain ⟨hn, rfl⟩ := Compile.lift_eq_ok.1 hl
  obtain ⟨e, _, hv, hs⟩ := Compile.bind_eq_ok.1 hs
  obtain ⟨rfl, -⟩ := Compile.pure_eq_ok.1 hs
  rw [StatementRule.marks, StatementRule.assignmentMarks, hn]
  exact ⟨(h.slot (by decide) hv).assigned name, not_allBlank _ (by decide)⟩

theorem transition (hs : StatementRule.transition.run g b c = .ok s c') :
    Writes s (StatementRule.marks g.diagram value statement b .transition) := by
  obtain ⟨t, c₁, ht, hs⟩ := Compile.bind_eq_ok.1 hs
  obtain ⟨rfl, -⟩ := Compile.pure_eq_ok.1 hs
  rw [localTransition] at ht
  split at ht
  · cases ht
  · obtain ⟨target, _, -, ht⟩ := Compile.bind_eq_ok.1 ht
    obtain ⟨e, _, hv, ht⟩ := Compile.bind_eq_ok.1 ht
    obtain ⟨rfl, -⟩ := Compile.pure_eq_ok.1 ht
    have hn := isValue_of_mem_slotMarks h.plain b "CONDITION" "false"
    have hc := (h.slot (by decide) hv).isTold.condition (fun k hk => Mark.not_isExit (hn k hk))
      (isParameterList_condition Script.localConditionParameters (by simp))
    have ht : IsCode "target: " [.script "target"] := isCode_of_script (by decide)
    have hw : IsCode "condition: " [.script "condition"] := isCode_of_script (by decide)
    have hl := ((ht.append_value (isValue_quoted target)).close_silent (t := ",\n") (by decide)
      (by decide)).append (hw.append hc)
    have hb := (hl.isTold.indented.braces (l := "\x7b\n") (r := "\n\x7d") (by decide)
      (by decide)).isValue.close_silent (t := ",\n") (by decide) (by decide)
    exact ⟨hb, not_allBlank _ (by decide)⟩

theorem inline {parts : List Part} (hk : StatementRule.ofKind? b.kind = some (.inline parts))
    (hs : g.expand b parts c = .ok s c') :
    Writes s (StatementRule.marks g.diagram value statement b (.inline parts)) := by
  have hp := StatementRule.isPhrased_table _ (Table.mem_of_get? hk) parts rfl
  obtain ⟨texts, rfl, ht⟩ := h.expand hp.defaults hs
  exact hp.code ht

theorem run {rule : StatementRule} (hk : StatementRule.ofKind? b.kind = some rule)
    (hs : rule.run g b c = .ok s c') :
    Writes s (StatementRule.marks g.diagram value statement b rule) := by
  cases rule with
  | inline parts => exact h.inline hk hs
  | actionSequence => exact h.actionSequence hs
  | setMemory => exact h.setMemory hs
  | branches => exact h.branches hs
  | scope => exact h.scope hs
  | declareVariable => exact h.declareVariable hs
  | setVariable => exact h.setVariable hs
  | returnState => exact writes_return hs
  | defineConstant => exact StatementRule.define_eq_ok (.inl rfl) hs
  | defineFunction => exact StatementRule.define_eq_ok (.inr rfl) hs
  | transition => exact h.transition hs

end Marked

theorem marked_ofDepth (d : Diagram ρ) (n : Nat) :
    (ofDepth d n).Marked (d.valueMarks n) (d.statementMarks n) := by
  induction n with
  | zero => exact ⟨marks_ofDepth d 0, d.isValue_of_mem_valueMarks 0, by rintro _ _ _ _ ⟨⟩,
      by rintro _ _ _ _ _ ⟨⟩⟩
  | succ n ih =>
    refine ⟨marks_ofDepth d (n + 1), d.isValue_of_mem_valueMarks (n + 1), ?_, ?_⟩
    · intro r c c' s hs
      obtain ⟨rule, c₁, hk, hs, -⟩ := statement_eq_ok hs
      have hw := ih.run hk hs
      rw [diagram_ofDepth] at hw
      rw [Diagram.statementMarks, hk]
      exact hw
    · intro r c c' s hr hs
      obtain ⟨rule, c₁, hk, hs, -⟩ := statement_eq_ok hs
      rw [diagram_ofDepth] at hr
      rw [hr] at hk
      cases hk
      exact writes_return hs

theorem mentions_handler {d : Diagram ρ} {n : Nat} {top : Option ρ} {c c' : Context ρ}
    {code parameters : String}
    (hp : parameters ∈ [Script.enterParameters, Script.executeParameters, Script.exitParameters])
    (h : (ofDepth d n).sequence top c = .ok code c') :
    ∃ ms, Script.mentions (Script.handler parameters code) = some ms ∧
      List.Forall₂ (Mention.Fits [.plain]) ms (d.stackMarks (d.statementMarks n) top).flatten := by
  have hc := ((marked_ofDepth d n).sequence h).1
  rw [diagram_ofDepth] at hc
  exact hc.mentions_handler (isParameterList_handler parameters hp)

end Generator

end BlockMachine
