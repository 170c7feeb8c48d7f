import BlockMachine.Proofs.Compiler.Lines
import BlockMachine.Proofs.Script.Awaitable

namespace BlockMachine

variable {ρ : Type}

/-- The kinds of statements that are one call. -/
def callKinds : List String :=
  ["api_fire", "api_stop", "api_log", "api_turn", "api_strafe", "memory_set"]

/-- A call or an assignment whose text is one line. The assignments to some names are taken for
other statements. -/
def Diagram.Awaits (d : Diagram ρ) (r : ρ) : Prop :=
  ((d.block r).kind ∈ callKinds ∨ (d.block r).kind = "local_set_variable" ∧
    ∃ name, (d.block r).fieldText "VAR_NAME" = .ok name ∧ Fragment.masked name = false) ∧
    ¬ d.SpreadsIn (d.block r) (d.block r).readValues

/-- What a sequence makes of the text of a step. -/
structure Diagram.Step (d : Diagram ρ) (r : ρ) (fragment : String) : Prop where
  awaitable : Fragment.isAwaitable (Text.trim fragment.toList) = true ↔ d.Awaits r
  free : startsFree fragment = true

namespace Diagram.Step

open Text (StartsVisible EndsVisible)

variable {d : Diagram ρ} {r : ρ}

theorem not_awaited {fragment : String} (hk : (d.block r).kind ∉ "local_set_variable" :: callKinds)
    (ha : Fragment.isAwaitable (Text.trim fragment.toList) = false)
    (hf : startsFree fragment = true) : d.Step r fragment := by
  refine ⟨iff_of_false (by rw [ha]; nofun) ?_, hf⟩
  rintro ⟨hc | ⟨hs, -⟩, -⟩
  · exact hk (List.mem_cons_of_mem _ hc)
  · exact hk (List.mem_cons.2 (.inl hs))

theorem of_opening {cs : List Char} {fragment : String}
    (hk : (d.block r).kind ∉ "local_set_variable" :: callKinds) (ho : Fragment.Opening cs)
    (hp : cs <+: fragment.toList) : d.Step r fragment := by
  obtain ⟨rest, hr⟩ := hp
  apply not_awaited hk
  · rw [← hr]
    exact ho.not_isAwaitable rest
  · rw [startsFree, ← hr, ho.firstWord_append]
    exact bne_iff_ne.2 ho.free

theorem awaited_iff {fragment : String} (h : d.Step r fragment) :
    "await ".toList <+: (Fragment.awaited fragment).toList ↔ d.Awaits r := by
  rw [← h.awaitable, Fragment.awaited]
  split
  · rename_i ha
    refine iff_of_true ?_ ha
    rw [String.toList_append, String.toList_append, List.append_assoc]
    exact List.prefix_append _ _
  · rename_i ha
    refine iff_of_false ?_ ha
    rintro ⟨rest, hr⟩
    rw [Fragment.closeScope] at hr
    split at hr
    · rename_i hb
      -- a block starts with a brace
      have hh : (Text.trim fragment.toList).head? = some '\x7b' :=
        beq_iff_eq.1 (Bool.and_eq_true_iff.1 hb).1
      have hr := congrArg List.head? hr
      simp only [trimmed, String.toList_append, String.toList_ofList, List.head?_append, hh] at hr
      cases hr
    · have hf := h.free
      rw [startsFree, ← hr, firstWord_append_of_mem (c := ' ') (by decide) (by decide)] at hf
      cases hf

theorem of_call {rest : String} (hk : (d.block r).kind ∈ callKinds)
    (hr : isFlat rest = false ↔ d.SpreadsIn (d.block r) (d.block r).readValues) :
    d.Step r ("api." ++ rest ++ ";\n") := by
  have hl : ("api." ++ rest ++ ";\n").toList =
      'a' :: ("pi.".toList ++ rest.toList) ++ [';', '\n'] := by
    simp [String.toList_append]
  constructor
  · rw [hl, Fragment.isAwaitable_line ⟨'a', _, rfl, by decide⟩, List.cons_append,
      Fragment.not_unawaitable, Awaits, ← hr, isFlat]
    simp [hk]
  · rw [startsFree, String.toList_append, String.toList_append, List.append_assoc,
      firstWord_append_of_mem (c := '.') (by decide) (by decide)]
    decide

theorem of_bare_call (name : String) {fragment : String} (hk : (d.block r).kind ∈ callKinds)
    (hr : (d.block r).readValues = []) (hn : fragment = "api." ++ name ++ ";\n")
    (hf : isFlat name = true) : d.Step r fragment := by
  rw [hn]
  apply of_call hk
  rw [hr]
  apply iff_of_false
  · rw [hf]
    nofun
  · rintro ⟨_, hm, -⟩
    cases hm

theorem of_assignment {name value : String} (hk : (d.block r).kind = "local_set_variable")
    (hn : (d.block r).fieldText "VAR_NAME" = .ok name)
    (hv : isFlat value = false ↔ d.SpreadsIn (d.block r) (d.block r).readValues) :
    d.Step r (identifier name ++ " = " ++ value ++ ";\n") := by
  have hl : (identifier name ++ " = " ++ value ++ ";\n").toList =
      ((identifier name).toList ++ ' ' :: '=' :: ' ' :: value.toList) ++ [';', '\n'] := by
    simp [String.toList_append]
  have hs : StartsVisible (identifier name).toList := by
    obtain ⟨⟨⟨c, rest, hc, -⟩, hw⟩, -⟩ := Identifier.valid_identifier name
    refine ⟨c, rest, hc, ?_⟩
    exact Text.not_isBlank_of_isWordChar (hw c (hc ▸ List.mem_cons_self))
  have hi : '\n' ∉ (identifier name).toList := isFlat_iff.1 (isFlat_identifier name)
  have ha : d.Awaits r ↔ Fragment.masked name = false ∧ isFlat value = true := by
    have hc : "local_set_variable" ∉ callKinds := by decide
    rw [Awaits, ← hv, hk, Bool.not_eq_false]
    simp [hc, hn]
  constructor
  · rw [hl, Fragment.isAwaitable_line (hs.append _), List.append_assoc, List.cons_append,
      Fragment.unawaitable_assignment, ha, isFlat]
    simp [hi, and_comm]
  · rw [startsFree, hl, List.append_assoc, List.cons_append, Fragment.firstWord_assignment,
      ← firstWord_identifier]
    exact startsFree_identifier name

end Diagram.Step

namespace Generator.Lined

variable {d : Diagram ρ} {n : Nat} {r : ρ} {c c' : Context ρ} {s : String}

theorem flat_argument (h : (ofDepth d n).Lined) {socket default : String} {context : Order}
    {e : Expression} (hr : (d.block r).readValues = [socket]) (hd : isFlat default = true)
    (hv : (ofDepth d n).value ((d.block r).value? socket) context default c = .ok e c') :
    isFlat e.text = false ↔ d.SpreadsIn (d.block r) (d.block r).readValues := by
  rw [h.flat_value hd hv, diagram_ofDepth, hr, Diagram.SpreadsIn]
  simp only [List.mem_singleton, exists_eq_left]

theorem step_call (h : (ofDepth d n).Lined) (name : String)
    {function socket default : String} {context : Order} (hk : (d.block r).kind ∈ callKinds)
    (hr : (d.block r).readValues = [socket]) (hn : function = "api." ++ name)
    (hf : isFlat name = true) (hd : isFlat default = true)
    (he : (StatementRule.call function socket context default).run (ofDepth d n) (d.block r) c =
      .ok s c') : d.Step r s := by
  obtain ⟨_, _, hs, he⟩ := Compile.bind_eq_ok.1 he
  cases he
  obtain ⟨e, c₁, hv, hs⟩ := Compile.bind_eq_ok.1 hs
  obtain ⟨_, _, ht, hs⟩ := Compile.bind_eq_ok.1 hs
  cases hs
  cases ht
  have hs : function ++ "(" ++ (e.text ++ (");\n" ++ "")) =
      "api." ++ (name ++ "(" ++ e.text ++ ")") ++ ";\n" := by
    simp [hn, ← String.toList_inj, String.toList_append]
  rw [hs]
  apply Diagram.Step.of_call hk
  have hl : isFlat "(" = true := by decide
  have hc : isFlat ")" = true := by decide
  rw [isFlat_append, isFlat_append, isFlat_append, hf, hl, hc, Bool.and_true, Bool.true_and,
    Bool.true_and]
  exact h.flat_argument hr hd hv

theorem step_setMemory (h : (ofDepth d n).Lined) (hk : (d.block r).kind ∈ callKinds)
    (hr : (d.block r).readValues = ["VALUE"])
    (he : StatementRule.setMemory.run (ofDepth d n) (d.block r) c = .ok s c') : d.Step r s := by
  obtain ⟨key, _, -, he⟩ := Compile.bind_eq_ok.1 he
  obtain ⟨e, _, hv, he⟩ := Compile.bind_eq_ok.1 he
  cases he
  have hs : "api.updateMemory(\x7b [" ++ quoted key ++ "]: " ++ e.text ++ " \x7d);\n" =
      "api." ++ ("updateMemory(\x7b [" ++ quoted key ++ "]: " ++ e.text ++ " \x7d)") ++ ";\n" := by
    simp [← String.toList_inj, String.toList_append]
  rw [hs]
  apply Diagram.Step.of_call hk
  have hl : isFlat "updateMemory(\x7b [" = true := by decide
  have hc : isFlat "]: " = true := by decide
  have hb : isFlat " \x7d)" = true := by decide
  rw [isFlat_append, isFlat_append, isFlat_append, isFlat_append, isFlat_quoted, hl, hc, hb,
    Bool.and_true, Bool.true_and, Bool.true_and, Bool.true_and]
  exact h.flat_argument hr (by decide) hv

theorem step_setVariable (h : (ofDepth d n).Lined) (hk : (d.block r).kind = "local_set_variable")
    (hr : (d.block r).readValues = ["VALUE"])
    (he : StatementRule.setVariable.run (ofDepth d n) (d.block r) c = .ok s c') : d.Step r s := by
  obtain ⟨name, _, hn, he⟩ := Compile.bind_eq_ok.1 he
  obtain ⟨e, _, hv, he⟩ := Compile.bind_eq_ok.1 he
  obtain ⟨rfl, -⟩ := Compile.pure_eq_ok.1 he
  have hf := h.flat_argument hr (by decide) hv
  exact Diagram.Step.of_assignment hk (Compile.lift_eq_ok.1 hn).1 hf

end Generator.Lined

namespace StatementRule

variable {g : Generator ρ} {b : Block ρ} {c c' : Context ρ} {s : String}

theorem fixed_eq_ok {code : String} (h : (fixed code).run g b c = .ok s c') : s = code := by
  cases h
  exact String.append_empty

theorem branch_eq_ok {i : Nat} (h : branch g b i c = .ok s c') :
    ['i', 'f', ' ', '('] <+: s.toList := by
  obtain ⟨e, _, -, h⟩ := Compile.bind_eq_ok.1 h
  obtain ⟨body, _, -, h⟩ := Compile.bind_eq_ok.1 h
  obtain ⟨rfl, -⟩ := Compile.pure_eq_ok.1 h
  simp only [String.toList_append]
  exact ⟨_, rfl⟩

theorem prefix_intercalate (sep x : String) (xs : List String) :
    x.toList <+: (sep.intercalate (x :: xs)).toList := by
  cases xs with
  | nil => exact ⟨[], by rw [List.append_nil, String.intercalate_singleton]⟩
  | cons y ys =>
    rw [String.intercalate_cons_cons, String.append_assoc, String.toList_append]
    exact List.prefix_append _ _

theorem branches_eq_ok (h : branches.run g b c = .ok s c') : ['i', 'f', ' ', '('] <+: s.toList := by
  obtain ⟨is, _, hi, h⟩ := Compile.bind_eq_ok.1 h
  obtain ⟨cases, _, hm, h⟩ := Compile.bind_eq_ok.1 h
  obtain ⟨i, is, rfl⟩ := List.exists_cons_of_ne_nil
    (List.ne_nil_of_mem (zero_mem_branchIndices (Compile.lift_eq_ok.1 hi).1))
  rw [List.mapM_cons] at hm
  obtain ⟨first, _, hb, hm⟩ := Compile.bind_eq_ok.1 hm
  obtain ⟨others, _, -, hm⟩ := Compile.bind_eq_ok.1 hm
  obtain ⟨rfl, -⟩ := Compile.pure_eq_ok.1 hm
  have hp := (branch_eq_ok hb).trans (prefix_intercalate " else " first others)
  split at h
  · obtain ⟨body, _, -, h⟩ := Compile.bind_eq_ok.1 h
    obtain ⟨rfl, -⟩ := Compile.pure_eq_ok.1 h
    simp only [String.toList_append, List.append_assoc]
    exact hp.trans (List.prefix_append _ _)
  · obtain ⟨rfl, -⟩ := Compile.pure_eq_ok.1 h
    rw [String.toList_append]
    exact hp.trans (List.prefix_append _ _)

theorem scope_eq_ok (h : scope.run g b c = .ok s c') : s = "" ∨ ['\x7b'] <+: s.toList := by
  obtain ⟨declared, _, -, h⟩ := Compile.bind_eq_ok.1 h
  obtain ⟨body, _, -, h⟩ := Compile.bind_eq_ok.1 h
  cases h
  split
  · exact .inl rfl
  · right
    rw [String.toList_append, String.toList_append]
    exact ⟨_, rfl⟩

theorem transition_eq_ok (h : transition.run g b c = .ok s c') : ['\x7b'] <+: s.toList := by
  obtain ⟨t, _, -, h⟩ := Compile.bind_eq_ok.1 h
  cases h
  rw [Transition.script, Script.braced]
  simp only [String.toList_append]
  exact ⟨_, rfl⟩

theorem declareVariable_eq_ok (h : declareVariable.run g b c = .ok s c') :
    ∃ name, ("let " ++ identifier name).toList <+: s.toList := by
  obtain ⟨name, _, -, h⟩ := Compile.bind_eq_ok.1 h
  obtain ⟨e, _, -, h⟩ := Compile.bind_eq_ok.1 h
  cases h
  refine ⟨name, ?_⟩
  rw [String.append_assoc, String.append_assoc,
    String.toList_append (s := "let " ++ identifier name)]
  exact List.prefix_append _ _

theorem returnState_eq_ok (h : returnState.run b c = .ok s c') :
    ['r', 'e', 't', 'u', 'r', 'n', ' ', '"'] <+: s.toList := by
  obtain ⟨name, _, -, h⟩ := Compile.bind_eq_ok.1 h
  cases h
  simp only [String.toList_append, quoted, String.toList_ofList]
  exact ⟨_, rfl⟩

theorem define_eq_ok {rule : StatementRule} (hr : rule = .defineConstant ∨ rule = .defineFunction)
    (h : rule.run g b c = .ok s c') : s = "" := by
  rcases hr with rfl | rfl
  · obtain ⟨_, _, -, h⟩ := Compile.bind_eq_ok.1 h
    obtain ⟨_, _, -, h⟩ := Compile.bind_eq_ok.1 h
    obtain ⟨_, _, -, h⟩ := Compile.bind_eq_ok.1 h
    cases h
    rfl
  · obtain ⟨_, _, -, h⟩ := Compile.bind_eq_ok.1 h
    obtain ⟨_, _, -, h⟩ := Compile.bind_eq_ok.1 h
    cases h
    rfl

/-- The text of a sequence from its lines and the return behind them. -/
def sequenceText (lines : List String) (exit : String) : String :=
  if lines.isEmpty then exit
  else "(async () => \x7b\n" ++ indented (String.join lines) ++ "\x7d)();\n" ++ exit

/-- The lines that a sequence makes of the texts of its steps. -/
def sequenceLines (fragments : List String) : List String :=
  (fragments.filter (!allBlank ·)).map Fragment.awaited

theorem steps_eq_ok {site : Site} {rs : List ρ} {lines : List String} {exit : String}
    (h : steps g site rs c = .ok (lines, exit) c') :
    ∃ (qs : List (Passage ρ String)) (c₁ : Context ρ), Passage.Leads c qs c₁ ∧
      (∀ q ∈ qs, q.Runs g.statement) ∧
      qs.map (·.ref) =
        rs.takeWhile (fun r => (g.diagram.block r).kind ≠ Catalog.returnStateKind) ∧
      lines = sequenceLines (qs.map (·.result)) ∧
      ((∀ r ∈ rs, (g.diagram.block r).kind ≠ Catalog.returnStateKind) ∧ exit = "" ∨
        ∃ r ∈ rs, (g.diagram.block r).kind = Catalog.returnStateKind ∧
          ∃ c₂, g.statement r c₁ = .ok exit c₂) := by
  induction rs generalizing c c' lines with
  | nil =>
    obtain ⟨hp, -⟩ := Compile.pure_eq_ok.1 h
    cases hp
    exact ⟨[], c, .nil, nofun, rfl, rfl, .inl ⟨nofun, rfl⟩⟩
  | cons r rs ih =>
    obtain ⟨fragment, c₁, hf, h⟩ := Compile.bind_eq_ok.1 h
    by_cases hk : (g.diagram.block r).kind = Catalog.returnStateKind
    · rw [if_pos hk] at h
      obtain ⟨rfl, rfl⟩ : lines = [] ∧ exit = fragment := by
        cases rs with
        | nil =>
          cases h
          exact ⟨rfl, rfl⟩
        | cons _ _ =>
          cases h
          exact ⟨rfl, rfl⟩
      refine ⟨[], c, .nil, nofun, ?_, rfl, .inr ⟨r, List.mem_cons_self, hk, c₁, hf⟩⟩
      rw [List.takeWhile_cons_of_neg (by simp [hk])]
      rfl
    · rw [if_neg hk] at h
      obtain ⟨⟨rest, last⟩, c₂, hs, h⟩ := Compile.bind_eq_ok.1 h
      obtain ⟨hp, -⟩ := Compile.pure_eq_ok.1 h
      cases hp
      obtain ⟨qs, c₃, hl, hq, hr, rfl, he⟩ := ih hs
      refine ⟨⟨r, c, fragment, c₁⟩ :: qs, c₃, .cons rfl hl, List.forall_mem_cons.2 ⟨hf, hq⟩,
        ?_, ?_, ?_⟩
      · rw [List.takeWhile_cons_of_pos (by simp [hk]), List.map_cons, hr]
      · simp only [sequenceLines, List.map_cons]
        cases hb : allBlank fragment with
        | true => rw [if_pos rfl, List.filter_cons_of_neg (by simp [hb])]
        | false => rw [if_neg (by simp), List.filter_cons_of_pos (by simp [hb]), List.map_cons]
      · rcases he with ⟨ha, he⟩ | ⟨r', hm, he⟩
        · exact .inl ⟨List.forall_mem_cons.2 ⟨hk, ha⟩, he⟩
        · exact .inr ⟨r', List.mem_cons_of_mem _ hm, he⟩

theorem actionSequence_eq_ok (h : actionSequence.run g b c = .ok s c') :
    ∃ rs lines exit c₁, g.diagram.stack (b.head? "DO") = .ok rs ∧
      steps g b.site rs c = .ok (lines, exit) c₁ ∧ s = sequenceText lines exit := by
  obtain ⟨rs, _, hs, h⟩ := Compile.bind_eq_ok.1 h
  obtain ⟨hr, rfl⟩ := Compile.lift_eq_ok.1 hs
  obtain ⟨⟨lines, exit⟩, c₁, hl, h⟩ := Compile.bind_eq_ok.1 h
  obtain ⟨rfl, -⟩ := Compile.pure_eq_ok.1 h
  exact ⟨rs, lines, exit, c₁, hr, hl, rfl⟩

end StatementRule

namespace Generator

variable {d : Diagram ρ} {n : Nat} {r : ρ} {c c' : Context ρ} {s : String}

theorem statement_return (hk : (d.block r).kind = Catalog.returnStateKind)
    (h : (ofDepth d n).statement r c = .ok s c') :
    ['r', 'e', 't', 'u', 'r', 'n', ' ', '"'] <+: s.toList := by
  cases n with
  | zero => cases h
  | succ n =>
    obtain ⟨rule, c₁, hr, h, -⟩ := statement_eq_ok h
    rw [hk] at hr
    cases hr
    exact StatementRule.returnState_eq_ok h

theorem step_actionSequence (hk : (d.block r).kind = "action_sequence")
    (h : StatementRule.actionSequence.run (ofDepth d n) (d.block r) c = .ok s c')
    (hb : allBlank s = false) : d.Step r s := by
  have hc : (d.block r).kind ∉ "local_set_variable" :: callKinds := by
    rw [hk]
    decide
  obtain ⟨rs, lines, exit, c₁, -, hl, rfl⟩ := StatementRule.actionSequence_eq_ok h
  rw [StatementRule.sequenceText] at hb ⊢
  split at hb
  · obtain ⟨_, _, -, -, -, -, ⟨-, rfl⟩ | ⟨r', -, hk', c₂, he⟩⟩ := StatementRule.steps_eq_ok hl
    · cases hb
    · rw [if_pos ‹_›]
      rw [diagram_ofDepth] at hk'
      exact .of_opening hc Fragment.opening_return (statement_return hk' he)
  · rw [if_neg ‹_›]
    have hi : '\n' ∈
        ("(async () => \x7b\n" ++ indented (String.join lines) ++ "\x7d)();").toList := by
      simp only [String.toList_append, List.mem_append]
      exact .inl (.inl (by decide))
    have ht : "(async () => \x7b\n" ++ indented (String.join lines) ++ "\x7d)();\n" ++ exit =
        "(async () => \x7b\n" ++ indented (String.join lines) ++ "\x7d)();" ++ ("\n" ++ exit) := by
      simp [← String.toList_inj, String.toList_append]
    apply Diagram.Step.not_awaited hc
    · rw [ht, String.toList_append]
      apply Fragment.not_isAwaitable_of_mem _ _ hi
      · simp only [String.toList_append, List.append_assoc]
        exact ⟨'(', _, rfl, by decide⟩
      · rw [String.toList_append]
        exact Text.EndsVisible.append ⟨['\x7d', ')', '(', ')'], ';', rfl, by decide⟩ _
    · rw [startsFree]
      simp only [String.toList_append, List.append_assoc]
      rfl

theorem step_moveTo (hk : (d.block r).kind ∉ "local_set_variable" :: callKinds)
    (h : StatementRule.moveTo.run (ofDepth d n) (d.block r) c = .ok s c') : d.Step r s := by
  obtain ⟨rest, _, -, h⟩ := Compile.bind_eq_ok.1 h
  obtain ⟨rfl, -⟩ := Compile.pure_eq_ok.1 h
  apply Diagram.Step.of_opening hk Fragment.opening_brace
  rw [String.toList_append]
  exact ⟨_, rfl⟩

theorem step_stateReference (hl : (ofDepth d n).Lined)
    (hk : (d.block r).kind ∉ "local_set_variable" :: callKinds)
    (h : StatementRule.stateReference.run (ofDepth d n) (d.block r) c = .ok s c') :
    d.Step r s := by
  have hf := hl.free_expand (by decide) h
  obtain ⟨e, _, -, h⟩ := Compile.bind_eq_ok.1 h
  obtain ⟨rest, _, hr, h⟩ := Compile.bind_eq_ok.1 h
  cases hr
  obtain ⟨rfl, -⟩ := Compile.pure_eq_ok.1 h
  apply Diagram.Step.not_awaited hk _ hf
  rw [String.toList_append]
  exact Fragment.not_isAwaitable_of_last (by decide) (by decide) _

theorem step_inline {parts : List Part}
    (hk : StatementRule.ofKind? (d.block r).kind = some (.inline parts))
    (h : (StatementRule.inline parts).run (ofDepth d n) (d.block r) c = .ok s c') :
    d.Step r s := by
  have hl := lined_ofDepth d n
  have hv : (d.block r).readValues = (StatementRule.inline parts).sockets :=
    ((StatementRule.suits_ofKind? hk).plain nofun).readValues
  have hm := Table.mem_of_get? hk
  simp only [StatementRule.table, List.mem_cons, List.not_mem_nil, Prod.mk.injEq, reduceCtorEq,
    and_false, or_false, false_or] at hm
  rcases hm with ⟨hk, hr⟩ | ⟨hk, hr⟩ | ⟨hk, hr⟩ | ⟨hk, hr⟩ | ⟨hk, hr⟩ | ⟨hk, hr⟩ | ⟨hk, hr⟩ |
    ⟨hk, hr⟩ | ⟨hk, hr⟩ | ⟨hk, hr⟩ <;> rw [hr] at h hv
  · have hs := StatementRule.fixed_eq_ok h
    exact .of_bare_call "fire()" (by rw [hk]; decide) hv hs (by decide)
  · have hs := StatementRule.fixed_eq_ok h
    exact .of_bare_call "stop()" (by rw [hk]; decide) hv hs (by decide)
  · cases StatementRule.fixed_eq_ok h
    exact .not_awaited (by rw [hk]; decide) (by decide) (by decide)
  · cases StatementRule.fixed_eq_ok h
    exact .of_opening (by rw [hk]; decide) Fragment.opening_brace ⟨_, rfl⟩
  · cases StatementRule.fixed_eq_ok h
    exact .of_opening (by rw [hk]; decide) Fragment.opening_brace ⟨_, rfl⟩
  · exact hl.step_call "log" (by rw [hk]; decide) hv rfl (by decide) (by decide) h
  · exact hl.step_call "turn" (by rw [hk]; decide) hv rfl (by decide) (by decide) h
  · exact hl.step_call "strafe" (by rw [hk]; decide) hv rfl (by decide) (by decide) h
  · exact step_moveTo (by rw [hk]; decide) h
  · exact step_stateReference hl (by rw [hk]; decide) h

theorem step_of_statement (h : (ofDepth d n).statement r c = .ok s c') (hb : allBlank s = false) :
    d.Step r s := by
  cases n with
  | zero => cases h
  | succ n =>
    obtain ⟨rule, c₁, hk, h, -⟩ := statement_eq_ok h
    have hl := lined_ofDepth d n
    have hv (hs : rule.soleKind? ≠ some "controls_if") : (d.block r).readValues = rule.sockets :=
      ((StatementRule.suits_ofKind? hk).plain hs).readValues
    have ho := (StatementRule.suits_ofKind? hk).sole
    have hd (hs : s = "") : d.Step r s := by
      rw [hs] at hb
      cases hb
    cases rule with
    | inline parts => exact step_inline hk h
    | actionSequence => exact step_actionSequence (ho _ rfl) h hb
    | setMemory => exact hl.step_setMemory (by rw [ho _ rfl]; decide) (hv (by decide)) h
    | branches =>
      have hp := StatementRule.branches_eq_ok h
      exact .of_opening (by rw [ho _ rfl]; decide) Fragment.opening_branch hp
    | scope =>
      rcases StatementRule.scope_eq_ok h with hs | hp
      · exact hd hs
      · exact .of_opening (by rw [ho _ rfl]; decide) Fragment.opening_brace hp
    | declareVariable =>
      obtain ⟨name, hp⟩ := StatementRule.declareVariable_eq_ok h
      exact .of_opening (by rw [ho _ rfl]; decide) (Fragment.opening_declaration name) hp
    | setVariable => exact hl.step_setVariable (ho _ rfl) (hv (by decide)) h
    | returnState =>
      have hp := StatementRule.returnState_eq_ok h
      exact .of_opening (by rw [ho _ rfl]; decide) Fragment.opening_return hp
    | defineConstant => exact hd (StatementRule.define_eq_ok (.inl rfl) h)
    | defineFunction => exact hd (StatementRule.define_eq_ok (.inr rfl) h)
    | transition =>
      have hp := StatementRule.transition_eq_ok h
      exact .of_opening (by rw [ho _ rfl]; decide) Fragment.opening_brace hp

end Generator

/-- The steps of a sequence up to the first return. Exactly the calls and the assignments whose text
is one line are awaited, and all other steps stay as they are. -/
theorem Diagram.sequence_awaits {d : Diagram ρ} {n : Nat} {r : ρ} {c c' : Context ρ} {code : String}
    (hk : (d.block r).kind = "action_sequence")
    (h : (Generator.ofDepth d (n + 1)).statement r c = .ok code c') :
    ∃ (rs : List ρ) (qs : List (Passage ρ String)) (c₁ : Context ρ) (exit : String),
      d.stack ((d.block r).head? "DO") = .ok rs ∧
      Passage.Leads { c with active := r :: c.active } qs c₁ ∧
      (∀ q ∈ qs, q.Runs (Generator.ofDepth d n).statement) ∧
      qs.map (·.ref) = rs.takeWhile (fun r => (d.block r).kind ≠ Catalog.returnStateKind) ∧
      ((∀ r ∈ rs, (d.block r).kind ≠ Catalog.returnStateKind) ∧ exit = "" ∨
        ∃ r ∈ rs, (d.block r).kind = Catalog.returnStateKind ∧
          ∃ c₂, (Generator.ofDepth d n).statement r c₁ = .ok exit c₂) ∧
      code = StatementRule.sequenceText (StatementRule.sequenceLines (qs.map (·.result))) exit ∧
      ∀ q ∈ qs, allBlank q.result = false →
        ("await ".toList <+: (Fragment.awaited q.result).toList ↔ d.Awaits q.ref) ∧
        (d.Awaits q.ref → Fragment.awaited q.result = "await " ++ trimmed q.result ++ "\n") ∧
        (¬ d.Awaits q.ref → Fragment.awaited q.result = Fragment.closeScope q.result) := by
  obtain ⟨rule, c₁, hr, h, -⟩ := Generator.statement_eq_ok h
  rw [hk] at hr
  cases hr
  obtain ⟨rs, lines, exit, c₂, hs, hl, hc⟩ := StatementRule.actionSequence_eq_ok h
  obtain ⟨qs, c₃, hq, hruns, hrefs, rfl, he⟩ := StatementRule.steps_eq_ok hl
  rw [Generator.diagram_ofDepth] at hs hrefs he
  refine ⟨rs, qs, c₃, exit, hs, hq, hruns, hrefs, he, hc, ?_⟩
  intro q hm hb
  have hstep := Generator.step_of_statement (hruns q hm) hb
  refine ⟨hstep.awaited_iff, fun ha => ?_, fun ha => ?_⟩
  · rw [Fragment.awaited, if_pos (hstep.awaitable.2 ha)]
  · rw [Fragment.awaited, if_neg (mt hstep.awaitable.1 ha)]

namespace Tree

def sequenceOf (steps : Tree) : Tree :=
  .node { kind := "action_sequence" } [] [("DO", some steps)] none

/-- An assignment with an empty socket, and what comes below it. -/
def assigning (name : String) (below : Option Tree) : Tree :=
  .node { kind := "local_set_variable", fields := [("VAR_NAME", .text name)] } [] [] below

/-- A message with the distance of the enemy in it. -/
def reporting (below : Option Tree) : Tree :=
  .node { kind := "api_log" }
    [("MESSAGE", some (.node { kind := "get_enemy_distance" } [] [] none))] [] below

/-- A turn, a report, an assignment and a return, with a step behind it. -/
def manoeuvre : Tree :=
  sequenceOf (.node { kind := "api_turn" } [] []
    (some (reporting (some (assigning "x" (some
      (.node { kind := "fsm_return_state", fields := [("STATE_NAME", .text "idle")] } [] []
        (some (assigning "y" none)))))))))

set_option maxRecDepth 8192 in
theorem manoeuvre_awaits :
    ∃ code c, (diagram [manoeuvre]).generator.statement manoeuvre {} = .ok code c ∧
      ∃ (qs : List (Passage Tree String)) (exit : String),
        qs.map (fun q => q.ref.block.kind) = ["api_turn", "api_log", "local_set_variable"] ∧
        code = StatementRule.sequenceText (StatementRule.sequenceLines (qs.map (·.result))) exit ∧
        ∀ q ∈ qs, allBlank q.result = false →
          ("await ".toList <+: (Fragment.awaited q.result).toList ↔
            (diagram [manoeuvre]).Awaits q.ref) := by
  have hs : ∃ code c, (diagram [manoeuvre]).generator.statement manoeuvre {} = .ok code c :=
    ⟨_, _, rfl⟩
  obtain ⟨code, c, hs⟩ := hs
  obtain ⟨rs, qs, -, exit, hr, -, -, hq, -, hc, ha⟩ := Diagram.sequence_awaits rfl hs
  refine ⟨code, c, hs, qs, exit, ?_, hc, fun q hm hb => (ha q hm hb).1⟩
  cases hr
  have hk := congrArg (List.map fun t => t.block.kind) hq
  rw [List.map_map] at hk
  exact hk

set_option maxRecDepth 8192 in
/-- An assignment is awaited, and a call with an argument over several lines is not. -/
theorem assignment_awaited :
    ((diagram [sequenceOf (assigning "x" none)]).generator.statement
      (sequenceOf (assigning "x" none))).start.result =
        .ok "(async () => \x7b\n  await x = 0;\n\x7d)();\n" ∧
    ¬ (diagram [sequenceOf (reporting none)]).Awaits (reporting none) := by
  refine ⟨rfl, fun h => h.2 ?_⟩
  exact ⟨"MESSAGE", by decide, _, rfl, .here (by decide)⟩

end Tree

end BlockMachine
