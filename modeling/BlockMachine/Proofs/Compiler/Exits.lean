import BlockMachine.Proofs.Compiler.StatementMarks

namespace BlockMachine

open Outline

variable {ρ : Type}

/-- The functions around each return of a literal, the innermost first. -/
def Script.exits (code : String) : Option (List (List FunctionKind)) :=
  (mentions code).map fun ms => (ms.filter (·.subject = .exit)).map (·.functions)

/-- The returns in a stack of statements, given those in each statement. -/
def Diagram.stackExits (d : Diagram ρ) (statement : ρ → List Nat) (top : Option ρ) : List Nat :=
  match d.stack top with
  | .error _ => []
  | .ok rs => rs.flatMap statement

/-- The returns in a statement, each with the number of sequences that have it inside a step. The
first return among the steps themselves ends the sequence, and is in none of them. -/
def StatementRule.exits (d : Diagram ρ) (statement : ρ → List Nat) (b : Block ρ) :
    StatementRule → List Nat
  | .returnState => [0]
  | .branches =>
    match branchIndices b with
    | .error _ => []
    | .ok is =>
      is.flatMap (fun i : Nat => d.stackExits statement (b.head? ("DO" ++ decimalText i))) ++
        if hasElse b then d.stackExits statement (b.head? "ELSE") else []
  | .scope =>
    d.stackExits statement (b.head? "VARIABLES") ++ d.stackExits statement (b.head? "BODY")
  | .actionSequence =>
    match d.stack (b.head? "DO") with
    | .error _ => []
    | .ok rs =>
      let steps := rs.takeWhile fun r => (d.block r).kind ≠ Catalog.returnStateKind
      (steps.flatMap statement).map (· + 1) ++
        if rs.any fun r => (d.block r).kind = Catalog.returnStateKind then [0] else []
  | _ => []

def Diagram.exits (d : Diagram ρ) : Nat → ρ → List Nat
  | 0, _ => []
  | depth + 1, r =>
    (StatementRule.ofKind? (d.block r).kind).elim []
      (StatementRule.exits d (d.exits depth) (d.block r))

namespace Outline

variable {ks : List Mark}

def Mark.exit? : Mark → Option Nat
  | .exit n => some n
  | _ => none

theorem filterMap_exit?_eq_nil (h : ∀ k ∈ ks, k.isExit = false) : ks.filterMap Mark.exit? = [] := by
  rw [List.filterMap_eq_nil_iff]
  intro k hk
  have he := h k hk
  cases k with
  | script w | author w moved => rfl
  | exit n => cases he

theorem filterMap_exit?_deeper :
    (ks.map Mark.deeper).filterMap Mark.exit? = (ks.filterMap Mark.exit?).map (· + 1) := by
  rw [List.filterMap_map, List.map_filterMap]
  congr 1
  funext k
  cases k <;> rfl

theorem exits_of_fits {outer : List FunctionKind} {ms : List Mention}
    (h : List.Forall₂ (Mention.Fits outer) ms ks) :
    (ms.filter (·.subject = .exit)).map (·.functions) =
      (ks.filterMap Mark.exit?).map (List.replicate · .async ++ outer) := by
  induction h with
  | nil => rfl
  | @cons m k ms ks hm _ ih =>
    cases k with
    | script w =>
      rw [List.filter_cons_of_neg (by rw [show m.subject = _ from hm]; simp), ih]
      rfl
    | author w moved =>
      rw [List.filter_cons_of_neg (by rw [hm.1]; simp), ih]
      rfl
    | exit n =>
      rw [List.filter_cons_of_pos (by rw [hm.1]; simp), List.map_cons, ih, hm.2]
      rfl

end Outline

section Values

variable {value : ρ → List Mark} {b : Block ρ} (hv : ∀ r, ∀ k ∈ value r, k.isValue = true)

include hv

theorem exits_slotMarks (socket default : String) :
    (slotMarks value b socket default).filterMap Mark.exit? = [] := by
  apply filterMap_exit?_eq_nil
  intro k hk
  exact Mark.not_isExit (isValue_of_mem_slotMarks hv b socket default k hk)

theorem exits_inlineMarks (parts : List Part) :
    (StatementRule.inlineMarks b.kind (slotMarks value b) parts).filterMap Mark.exit? = [] := by
  have hk : ∀ k ∈ parts.flatMap (Part.marks .script (slotMarks value b)), k.isExit = false := by
    intro k hk
    obtain ⟨part, -, hk⟩ := List.mem_flatMap.1 hk
    cases part with
    | text s =>
      obtain ⟨w, -, rfl⟩ := List.mem_map.1 hk
      rfl
    | slot socket context default =>
      exact Mark.not_isExit (isValue_of_mem_slotMarks hv b socket default k hk)
    | fail f => cases hk
  rw [StatementRule.inlineMarks]
  split
  · apply filterMap_exit?_eq_nil
    intro k' hm
    obtain ⟨k, hk', rfl⟩ := List.mem_map.1 hm
    have he := hk k hk'
    cases k with
    | script w | author w moved => rfl
    | exit n => cases he
  · exact filterMap_exit?_eq_nil hk

theorem exits_assignmentMarks (socket : String) :
    ((StatementRule.assignmentMarks value b socket).getD []).filterMap Mark.exit? = [] := by
  rw [StatementRule.assignmentMarks]
  cases b.fieldText "VAR_NAME" with
  | error f => rfl
  | ok name => exact exits_slotMarks hv socket "0"

end Values

section Statements

variable {d : Diagram ρ} {statement : ρ → Option (List Mark)} {exits : ρ → List Nat}

theorem flatten_filterMap (rs : List ρ) :
    (rs.filterMap statement).flatten = rs.flatMap fun r => (statement r).getD [] := by
  induction rs with
  | nil => rfl
  | cons r rs ih =>
    rw [List.flatMap_cons, ← ih]
    cases hs : statement r with
    | none => rw [List.filterMap_cons_none hs]; rfl
    | some ks => rw [List.filterMap_cons_some hs]; rfl

variable (hs : ∀ r, ((statement r).getD []).filterMap Mark.exit? = exits r)

include hs

theorem exits_steps (rs : List ρ) :
    (rs.filterMap statement).flatten.filterMap Mark.exit? = rs.flatMap exits := by
  rw [flatten_filterMap, List.filterMap_flatMap, funext hs]

theorem exits_stackMarks (top : Option ρ) :
    (d.stackMarks statement top).flatten.filterMap Mark.exit? = d.stackExits exits top := by
  rw [Diagram.stackMarks, Diagram.stackExits]
  cases d.stack top with
  | error f => rfl
  | ok rs => exact exits_steps hs rs

theorem exits_sequenceMarks (rs : List ρ) :
    ((StatementRule.sequenceMarks d statement rs).getD []).filterMap Mark.exit? =
      ((rs.takeWhile fun r => (d.block r).kind ≠ Catalog.returnStateKind).flatMap exits).map (· + 1)
        ++ if rs.any fun r => (d.block r).kind = Catalog.returnStateKind then [0] else [] := by
  rw [StatementRule.sequenceMarks, ← exits_steps hs]
  generalize (rs.takeWhile fun r =>
    (d.block r).kind ≠ Catalog.returnStateKind).filterMap statement = kss
  generalize (rs.any fun r => (d.block r).kind = Catalog.returnStateKind) = ends
  cases kss with
  | nil => cases ends <;> rfl
  | cons ks kss =>
    rw [← filterMap_exit?_deeper]
    cases ends with
    | true => exact List.filterMap_append
    | false => exact List.filterMap_append

variable {value : ρ → List Mark} {b : Block ρ} (hv : ∀ r, ∀ k ∈ value r, k.isValue = true)

include hv

theorem exits_branchMarks (i : Nat) :
    (StatementRule.branchMarks d value statement b i).filterMap Mark.exit? =
      d.stackExits exits (b.head? ("DO" ++ decimalText i)) := by
  rw [StatementRule.branchMarks, List.filterMap_append, exits_slotMarks hv, exits_stackMarks hs]
  rfl

theorem exits_marks (rule : StatementRule) :
    ((StatementRule.marks d value statement b rule).getD []).filterMap Mark.exit? =
      rule.exits d exits b := by
  cases rule with
  | inline parts => exact exits_inlineMarks hv parts
  | actionSequence =>
    rw [StatementRule.marks, StatementRule.exits]
    cases d.stack (b.head? "DO") with
    | error f => rfl
    | ok rs => exact exits_sequenceMarks hs rs
  | setMemory => exact exits_slotMarks hv "VALUE" "null"
  | branches =>
    rw [StatementRule.marks, StatementRule.exits]
    cases StatementRule.branchIndices b with
    | error f => rfl
    | ok is =>
      dsimp only
      rw [Option.getD_some, List.filterMap_append, List.filterMap_flatMap,
        funext (exits_branchMarks hs hv)]
      congr 1
      split
      · exact exits_stackMarks hs _
      · rfl
  | scope =>
    rw [StatementRule.marks, StatementRule.exits, ← exits_stackMarks hs, ← exits_stackMarks hs,
      ← List.filterMap_append, ← List.flatten_append]
    split
    · rename_i he
      rw [List.isEmpty_iff.1 he]
      rfl
    · rfl
  | declareVariable => exact exits_assignmentMarks hv "INITIAL_VALUE"
  | setVariable => exact exits_assignmentMarks hv "VALUE"
  | returnState | defineConstant | defineFunction => rfl
  | transition => exact exits_slotMarks hv "CONDITION" "false"

end Statements

theorem Diagram.exits_statementMarks (d : Diagram ρ) (n : Nat) (r : ρ) :
    ((d.statementMarks n r).getD []).filterMap Mark.exit? = d.exits n r := by
  induction n generalizing r with
  | zero => rfl
  | succ n ih =>
    rw [statementMarks, exits]
    cases StatementRule.ofKind? (d.block r).kind with
    | none => rfl
    | some rule => exact exits_marks ih (d.isValue_of_mem_valueMarks n) rule

theorem exits_of_mentions {code : String} {outer : List FunctionKind} {ks : List Mark}
    (h : ∃ ms, Script.mentions code = some ms ∧ List.Forall₂ (Mention.Fits outer) ms ks) :
    Script.exits code =
      some ((ks.filterMap Mark.exit?).map (List.replicate · .async ++ outer)) := by
  obtain ⟨ms, hm, hf⟩ := h
  rw [Script.exits, hm, Option.map_some, exits_of_fits hf]

/-- The returns that are written, from left to right, each with the functions around it. The handler
itself returns exactly if no sequence has the return inside a step. -/
theorem Diagram.exits_compiled (d : Diagram ρ) (n : Nat) :
    (∀ (r : ρ) (c c' : Context ρ) (code : String),
      (Generator.ofDepth d n).statement r c = .ok code c' →
      Script.exits code = some ((d.exits n r).map (List.replicate · .async))) ∧
    ∀ (top : Option ρ) (c c' : Context ρ) (code : String),
      (Generator.ofDepth d n).sequence top c = .ok code c' →
      ∀ parameters ∈ [Script.enterParameters, Script.executeParameters, Script.exitParameters],
        Script.exits (Script.handler parameters code) =
          some ((d.stackExits (d.exits n) top).map (List.replicate · .async ++ [.plain])) := by
  refine ⟨fun r c c' code h => ?_, fun top c c' code h parameters hp => ?_⟩
  · have hc := ((Generator.marked_ofDepth d n).statements h).isCode
    rw [exits_of_mentions hc.isTold.mentions, d.exits_statementMarks n r]
    simp
  · rw [exits_of_mentions (Generator.mentions_handler hp h),
      exits_stackMarks (d.exits_statementMarks n)]

namespace Tree

def returning (name : String) (below : Option Tree) : Tree :=
  .node { kind := "fsm_return_state", fields := [("STATE_NAME", .text name)] } [] [] below

/-- A branch with a body, and what comes below it. -/
def guarding (body : Tree) (below : Option Tree) : Tree :=
  .node { kind := "controls_if" } [] [("DO0", some body)] below

/-- A sequence that returns in a branch, in a sequence of a scope, in a branch there, and last. -/
def retreat : Tree :=
  sequenceOf (guarding (returning "hide" none) (some
    (.node { kind := "local_scope" } [] [("BODY", some (sequenceOf
      (guarding (returning "flee" none) (some (returning "rest" none)))))]
      (some (returning "idle" none)))))

set_option maxRecDepth 8192 in
theorem retreat_exits :
    (∃ code c, (diagram [retreat]).generator.statement retreat {} = .ok code c ∧
      Script.exits code = some [[.async], [.async, .async], [.async], []]) ∧
    ∃ code c, (diagram [retreat]).generator.sequence (some retreat) {} = .ok code c ∧
      Script.exits (Script.handler Script.executeParameters code) =
        some [[.async, .plain], [.async, .async, .plain], [.async, .plain], [.plain]] := by
  have hs : ∃ code c, (diagram [retreat]).generator.statement retreat {} = .ok code c :=
    ⟨_, _, rfl⟩
  have hq : ∃ code c, (diagram [retreat]).generator.sequence (some retreat) {} = .ok code c :=
    ⟨_, _, rfl⟩
  obtain ⟨code, c, hs⟩ := hs
  obtain ⟨body, c', hq⟩ := hq
  refine ⟨⟨code, c, hs, ?_⟩, body, c', hq, ?_⟩
  · exact (Diagram.exits_compiled _ _).1 _ _ _ _ hs
  · exact (Diagram.exits_compiled _ _).2 _ _ _ _ hq _ (by decide)

set_option maxRecDepth 8192 in
/-- A sequence with nothing but a return in it is a return, and so a step of the sequence around
it. -/
theorem return_in_async :
    ((diagram [sequenceOf (sequenceOf (returning "idle" none))]).generator.statement
      (sequenceOf (sequenceOf (returning "idle" none)))).start.result =
        .ok "(async () => \x7b\n  return \"idle\";\n\x7d)();\n" ∧
    Script.exits "(async () => \x7b\n  return \"idle\";\n\x7d)();\n" = some [[.async]] :=
  ⟨rfl, by decide⟩

end Tree

end BlockMachine
