import BlockMachine.Proofs.Compiler.StatementMarks

namespace BlockMachine

open Outline

variable {ρ : Type}

/-- A name of the author is bound by nothing that the compiler has written. -/
def Outline.Mention.IsFree (m : Mention) (k : Mark) : Prop :=
  ∀ w moved, k = .author w moved → w ∉ m.bound

theorem Outline.Mention.Fits.isFree {outer : List FunctionKind} {m : Mention} {k : Mark}
    (h : m.Fits outer k) (hk : k.isValue = true) : m.IsFree k := by
  rintro w moved rfl hw
  cases moved with
  | true => cases hk
  | false => cases (h.2.1 hw).2

theorem isFree_of_fits {outer : List FunctionKind} {ms : List Mention} {ks : List Mark}
    (h : List.Forall₂ (Mention.Fits outer) ms ks) (hk : ∀ k ∈ ks, k.isValue = true) :
    List.Forall₂ (fun m k => m.Fits outer k ∧ m.IsFree k) ms ks := by
  have hf := ((List.forall₂_and_left _ _).2 ⟨hk, h.flip⟩).flip
  exact hf.imp fun m k h => ⟨h.2, Mention.Fits.isFree h.2 h.1⟩

/-- What is mentioned in compiled texts, from left to right, and which names of the author are
bound there. -/
structure Diagram.Hygienic (d : Diagram ρ) (n : Nat) : Prop where
  value {r : ρ} {c c' : Context ρ} {e : Expression} :
    (Generator.ofDepth d n).expression r c = .ok e c' →
    ∃ ms, Script.mentions e.text = some ms ∧
      List.Forall₂ (fun m k => m.Fits [] k ∧ m.IsFree k) ms (d.valueMarks n r)
  condition {b : Block ρ} {c c' : Context ρ} {e : Expression} {default parameters : String} :
    default ∈ ["false", "() => false"] →
    parameters ∈ [Script.localConditionParameters, Script.globalConditionParameters] →
    (Generator.ofDepth d n).condition b default c = .ok e c' →
    ∃ ms, Script.mentions (Script.condition parameters e.text) = some ms ∧
      List.Forall₂ (fun m k => m.Fits [.plain] k ∧ m.IsFree k) ms
        (slotMarks (d.valueMarks n) b "CONDITION" default)
  statement {r : ρ} {c c' : Context ρ} {code : String} :
    (Generator.ofDepth d n).statement r c = .ok code c' →
    ∃ ms, Script.mentions code = some ms ∧
      List.Forall₂ (Mention.Fits []) ms ((d.statementMarks n r).getD [])
  handler {top : Option ρ} {c c' : Context ρ} {code parameters : String} :
    parameters ∈ [Script.enterParameters, Script.executeParameters, Script.exitParameters] →
    (Generator.ofDepth d n).sequence top c = .ok code c' →
    ∃ ms, Script.mentions (Script.handler parameters code) = some ms ∧
      List.Forall₂ (Mention.Fits [.plain]) ms (d.stackMarks (d.statementMarks n) top).flatten

theorem Diagram.hygienic (d : Diagram ρ) (n : Nat) : d.Hygienic n := by
  have hm := Generator.marked_ofDepth d n
  constructor
  case value =>
    intro r c c' e h
    obtain ⟨ms, ht, hf⟩ := (hm.expression h).isTold.mentions
    exact ⟨ms, ht, isFree_of_fits hf (d.isValue_of_mem_valueMarks n r)⟩
  case condition =>
    intro b c c' e default parameters hd hp h
    have hs : ∀ default ∈ ["false", "() => false"], isScriptValue default.toList = true := by
      decide
    obtain ⟨ms, ht, hf⟩ := (hm.slot (hs default hd) h).isTold.mentions_condition
      (isParameterList_condition parameters hp)
    exact ⟨ms, ht, isFree_of_fits hf (isValue_of_mem_slotMarks hm.plain b "CONDITION" default)⟩
  case statement =>
    intro r c c' code h
    exact (hm.statements h).isCode.isTold.mentions
  case handler =>
    intro top c c' code parameters hp h
    exact Generator.mentions_handler hp h

namespace Tree

def naming (name : String) : Tree :=
  .node { kind := "local_get_variable", fields := [("VAR_NAME", .text name)] } [] [] none

def movingTo (position : Tree) : Tree :=
  .node { kind := "api_move_to" } [("POSITION", some position)] [] none

def checking (position : Tree) : Tree :=
  .node { kind := "actions_move_to_and_check" } [("POSITION", some position)] [] none

/-- The variable `pos` is set, and then moved to. -/
def approach : Tree := assigning "pos" (some (movingTo (naming "pos")))

set_option maxRecDepth 8192 in
theorem approach_hygienic :
    (∃ e c, (diagram [checking (naming "pos")]).generator.expression (checking (naming "pos")) {} =
        .ok e c ∧
      ∃ ms, Script.mentions e.text = some ms ∧
        List.Forall₂ (fun m k => m.Fits [] k ∧ m.IsFree k) ms
          [.script "pos", .script "pos", .script "moveTo", .script "pos", .script "x",
            .script "pos", .script "y", .author "pos" false]) ∧
    ∃ code c, (diagram [approach]).generator.sequence (some approach) {} = .ok code c ∧
      ∃ ms, Script.mentions (Script.handler Script.executeParameters code) = some ms ∧
        List.Forall₂ (Mention.Fits [.plain]) ms
          [.author "pos" false, .script "pos", .author "pos" true, .script "pos",
            .script "moveTo", .script "pos", .script "x", .script "pos", .script "y"] := by
  have he : ∃ e c, (diagram [checking (naming "pos")]).generator.expression
      (checking (naming "pos")) {} = .ok e c := ⟨_, _, rfl⟩
  have hs : ∃ code c, (diagram [approach]).generator.sequence (some approach) {} = .ok code c :=
    ⟨_, _, rfl⟩
  obtain ⟨e, c, he⟩ := he
  obtain ⟨code, c', hs⟩ := hs
  have hv : (diagram [checking (naming "pos")]).valueMarks 3 (checking (naming "pos")) =
      [.script "pos", .script "pos", .script "moveTo", .script "pos", .script "x", .script "pos",
        .script "y", .author "pos" false] := by decide
  have hk : ((diagram [approach]).stackMarks ((diagram [approach]).statementMarks 4)
      (some approach)).flatten =
        [.author "pos" false, .script "pos", .author "pos" true, .script "pos", .script "moveTo",
          .script "pos", .script "x", .script "pos", .script "y"] := by decide
  refine ⟨⟨e, c, he, ?_⟩, code, c', hs, ?_⟩
  · rw [← hv]
    exact (Diagram.hygienic _ _).value he
  · rw [← hk]
    exact (Diagram.hygienic _ _).handler (by decide) hs

set_option maxRecDepth 8192 in
/-- The variable is taken for the constant that it is to be the value of. -/
theorem position_captured :
    ((diagram [movingTo (naming "pos")]).generator.statement
      (movingTo (naming "pos"))).start.result =
        .ok "\x7b\n  const pos = pos;\n  if (pos) api.moveTo(pos.x, pos.y);\n\x7d\n" ∧
    (diagram [movingTo (naming "pos")]).statementMarks 3 (movingTo (naming "pos")) =
      some [.script "pos", .author "pos" true, .script "pos", .script "moveTo", .script "pos",
        .script "x", .script "pos", .script "y"] ∧
    Script.mentions "\x7b\n  const pos = pos;\n  if (pos) api.moveTo(pos.x, pos.y);\n\x7d\n" =
      some (["pos", "pos", "pos", "moveTo", "pos", "x", "pos", "y"].map
        fun w => ⟨.name w, ["pos"], []⟩) :=
  ⟨rfl, by decide, by decide⟩

end Tree

end BlockMachine
