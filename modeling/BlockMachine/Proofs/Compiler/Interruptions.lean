import BlockMachine.Compiler.Assembly
import BlockMachine.Proofs.Block.Chain
import BlockMachine.Proofs.Compiler.Settled
import BlockMachine.Proofs.Machine.Records
import BlockMachine.Proofs.Script.Term

namespace BlockMachine

variable {ρ σ : Type}

/-- Both blocks are of one kind and have the same in their fields. -/
def Block.Repeats (b : Block ρ) (b' : Block σ) : Prop := b'.kind = b.kind ∧ b'.fields = b.fields

theorem Block.Repeats.fieldText {b : Block ρ} {b' : Block σ} (h : b.Repeats b')
    {field name : String} (hf : b.fieldText field = .ok name) : b'.fieldText field = .ok name := by
  rw [Block.fieldText, Block.field, Block.field?] at hf ⊢
  rw [h.2]
  cases hv : Table.get? b.fields field with
  | none =>
    rw [hv] at hf
    cases hf
  | some v =>
    rw [hv] at hf
    exact hf

theorem Block.Repeats.fieldTextD {b : Block ρ} {b' : Block σ} (h : b.Repeats b')
    (field default : String) : b'.fieldTextD field default = b.fieldTextD field default := by
  rw [Block.fieldTextD, Block.field?, h.2]
  rfl

namespace Diagram

variable {d : Diagram ρ} {d' : Diagram σ} {r : ρ} {r' : σ} {name : String}

/-- The block names a state: itself, or by what stands in it. -/
inductive Names (d : Diagram ρ) (r : ρ) : String → Prop
  | bare {name : String} (hk : (d.block r).kind = Catalog.stateReferenceKind)
      (hn : (d.block r).fieldText "STATE_NAME" = .ok name) : Names d r name
  | wrapped {u : ρ} {name : String} (hk : (d.block r).kind = Catalog.stateReferenceStatementKind)
      (hu : (d.block r).value? "STATE" = some u)
      (hi : (d.block u).kind = Catalog.stateReferenceKind)
      (hn : (d.block u).fieldText "STATE_NAME" = .ok name) : Names d r name
  | spelled {u : ρ} (hk : (d.block r).kind = Catalog.stateReferenceStatementKind)
      (hu : (d.block r).value? "STATE" = some u) (hi : (d.block u).kind = Catalog.textKind) :
      Names d r ((d.block u).fieldTextD "TEXT" "")
  | blank (hk : (d.block r).kind = Catalog.stateReferenceStatementKind)
      (hu : (d.block r).value? "STATE" = none) : Names d r ""

theorem stateReferenceStatementKind_ne :
    Catalog.stateReferenceStatementKind ≠ Catalog.stateReferenceKind := by decide

theorem interruption_eq_ok_iff : d.interruption (d.block r) = .ok name ↔ d.Names r name := by
  constructor
  · intro h
    rw [interruption] at h
    split at h
    · exact .bare (by assumption) h
    split at h
    · rename_i hk
      rw [wrappedName] at h
      cases hu : (d.block r).value? "STATE" with
      | none =>
        rw [hu] at h
        cases h
        exact .blank hk hu
      | some u =>
        rw [hu] at h
        dsimp only at h
        split at h
        · exact .wrapped hk hu (by assumption) h
        split at h
        · cases h
          exact .spelled hk hu (by assumption)
        · cases h
    · cases h
  · intro h
    cases h with
    | bare hk hn => rw [interruption, if_pos hk, hn]
    | wrapped hk hu hi hn =>
      rw [interruption, hk, if_neg stateReferenceStatementKind_ne, if_pos rfl, wrappedName, hu]
      dsimp only
      rw [if_pos hi, hn]
    | spelled hk hu hi =>
      rw [interruption, hk, if_neg stateReferenceStatementKind_ne, if_pos rfl, wrappedName, hu]
      dsimp only
      rw [hi, if_neg (by decide), if_pos rfl]
    | blank hk hu =>
      rw [interruption, hk, if_neg stateReferenceStatementKind_ne, if_pos rfl, wrappedName, hu]

/-- An entry drawn again: as it was, with a wrapper around it, or with its name spelled out in the
wrapper that it has. -/
inductive Restates (d : Diagram ρ) (d' : Diagram σ) (r : ρ) (r' : σ) : Prop
  | kept (hb : (d.block r).Repeats (d'.block r'))
      (hs : Option.Rel (fun u u' => (d.block u).Repeats (d'.block u'))
        ((d.block r).value? "STATE") ((d'.block r').value? "STATE"))
  | wrapped {u' : σ} (hk : (d.block r).kind = Catalog.stateReferenceKind)
      (hk' : (d'.block r').kind = Catalog.stateReferenceStatementKind)
      (hu : (d'.block r').value? "STATE" = some u') (hb : (d.block r).Repeats (d'.block u'))
  | spelled {u : ρ} {u' : σ} (hk : (d.block r).kind = Catalog.stateReferenceStatementKind)
      (hu : (d.block r).value? "STATE" = some u)
      (hi : (d.block u).kind = Catalog.stateReferenceKind)
      (hk' : (d'.block r').kind = Catalog.stateReferenceStatementKind)
      (hu' : (d'.block r').value? "STATE" = some u') (hi' : (d'.block u').kind = Catalog.textKind)
      (hn : (d.block u).fieldText "STATE_NAME" = .ok ((d'.block u').fieldTextD "TEXT" ""))

namespace Names

theorem kept (h : d.Names r name) (hb : (d.block r).Repeats (d'.block r'))
    (hs : Option.Rel (fun u u' => (d.block u).Repeats (d'.block u'))
      ((d.block r).value? "STATE") ((d'.block r').value? "STATE")) : d'.Names r' name := by
  generalize hv : (d'.block r').value? "STATE" = v at hs
  cases h with
  | bare hk hn => exact .bare (hb.1.trans hk) (hb.fieldText hn)
  | wrapped hk hu hi hn =>
    rw [hu] at hs
    cases hs with
    | some hs => exact .wrapped (hb.1.trans hk) hv (hs.1.trans hi) (hs.fieldText hn)
  | spelled hk hu hi =>
    rw [hu] at hs
    cases hs with
    | some hs =>
      rw [← hs.fieldTextD]
      exact .spelled (hb.1.trans hk) hv (hs.1.trans hi)
  | blank hk hu =>
    rw [hu] at hs
    cases hs
    exact .blank (hb.1.trans hk) hv

theorem restated (h : d.Names r name) (hr : d.Restates d' r r') : d'.Names r' name := by
  cases hr with
  | kept hb hs => exact h.kept hb hs
  | wrapped hk hk' hu hb =>
    cases h with
    | bare _ hn => exact .wrapped hk' hu (hb.1.trans hk) (hb.fieldText hn)
    | wrapped hw => exact absurd (hw.symm.trans hk) stateReferenceStatementKind_ne
    | spelled hw => exact absurd (hw.symm.trans hk) stateReferenceStatementKind_ne
    | blank hw => exact absurd (hw.symm.trans hk) stateReferenceStatementKind_ne
  | spelled hk hu hi hk' hu' hi' hn =>
    cases h with
    | bare hb => exact absurd (hk.symm.trans hb) stateReferenceStatementKind_ne
    | wrapped _ hv _ hm =>
      cases hu.symm.trans hv
      cases hn.symm.trans hm
      exact .spelled hk' hu' hi'
    | spelled _ hv ht =>
      cases hu.symm.trans hv
      exact absurd (hi.symm.trans ht) (by decide)
    | blank _ hv => cases hu.symm.trans hv

theorem forall₂_restated {rs : List ρ} {rs' : List σ} {names : List String}
    (h : List.Forall₂ d.Names rs names) (hr : List.Forall₂ (d.Restates d') rs rs') :
    List.Forall₂ d'.Names rs' names := by
  induction h generalizing rs' with
  | nil =>
    cases hr
    exact .nil
  | cons h _ ih =>
    cases hr with
    | cons hr hrs => exact .cons (h.restated hr) (ih hrs)

end Names

theorem interruptibleBy_eq_ok_iff {b : Block ρ} {result : Option (List String)} :
    d.interruptibleBy b = .ok result ↔ ∃ rs names, d.stack (b.head? "INTERRUPTIBLE_BY") = .ok rs ∧
      List.Forall₂ d.Names rs names ∧ result = if names.isEmpty then none else some names := by
  constructor
  · intro h
    obtain ⟨rs, hs, h⟩ := bind_eq_ok.1 h
    obtain ⟨names, hn, h⟩ := bind_eq_ok.1 h
    have hnames := (mapM_eq_ok_iff.1 hn).imp fun _ _ => interruption_eq_ok_iff.1
    exact ⟨rs, names, hs, hnames, (Except.ok.inj h).symm⟩
  · rintro ⟨rs, names, hs, hnames, rfl⟩
    have hn := mapM_eq_ok_iff.2 (hnames.imp fun _ _ => interruption_eq_ok_iff.2)
    exact bind_eq_ok.2 ⟨rs, hs, bind_eq_ok.2 ⟨names, hn, rfl⟩⟩

end Diagram

namespace Sketch

variable {s : Sketch} {r u : Fin s.size} {name : String}

theorem settlesIn_atom {rs : List (Fin s.size)} (k : Nat) {rule : ValueRule} {text : String}
    (hn : u ∉ rs) (hk : ValueRule.ofKind? (s.block u).kind = some rule)
    (ht : rule.template (s.block u) = .ok (ValueRule.atom text)) :
    ((Generator.ofDepth s.diagram (k + 1)).expression u).SettlesIn rs ⟨text, .atomic⟩ := by
  have hk : ValueRule.ofKind? (s.diagram.block u).kind = some rule := hk
  have ht : rule.template (s.diagram.block u) = .ok (ValueRule.atom text) := ht
  rw [Generator.expression_succ, hk]
  apply Compile.SettlesIn.visiting (seen_of_not_mem hn)
  rw [ht]
  apply Compile.Settles.settlesIn
  apply Compile.Settles.bind (.pure (ValueRule.atom text))
  have he := Generator.settles_expand_text text (Generator.settles_expand_nil
    (g := Generator.ofDepth s.diagram k) (b := s.diagram.block u))
  rw [String.append_empty] at he
  exact he.bind (.pure _)

theorem settlesIn_wrapped (k : Nat) (hk : (s.block r).kind = Catalog.stateReferenceStatementKind)
    (h : s.diagram.Names r name) :
    ((Generator.ofDepth s.diagram (k + 1)).value ((s.block r).value? "STATE") .atomic
      "\"\"").SettlesIn [r] ⟨quoted name, .atomic⟩ := by
  -- A wrapper never stands in itself, since what names a state in it is of another kind.
  have hne {u : Fin s.size} {kind : String} (hi : (s.block u).kind = kind)
      (hd : kind ≠ Catalog.stateReferenceStatementKind) : u ∉ [r] := by
    intro hm
    rw [List.mem_singleton.1 hm] at hi
    exact hd (hi.symm.trans hk)
  have hatom (text : String) : (⟨text, .atomic⟩ : Expression).within .atomic = ⟨text, .atomic⟩ := by
    rw [Expression.within, Order.needsParens_atomic]
    rfl
  cases h with
  | bare hb => exact absurd (hk.symm.trans hb) Diagram.stateReferenceStatementKind_ne
  | @wrapped u _ _ hu hi hn =>
    have hr : ValueRule.ofKind? Catalog.stateReferenceKind = some .stateName := rfl
    have ht : ValueRule.stateName.template (s.block u) = .ok (ValueRule.atom (quoted name)) :=
      congrArg (Except.map fun name => ValueRule.atom (quoted name)) hn
    have he := settlesIn_atom k (hne hi (by decide)) (hi ▸ hr) ht
    rw [← hatom, show (s.block r).value? "STATE" = _ from hu]
    exact he.bind ((Compile.Settles.pure _).settlesIn [r])
  | spelled _ hu hi =>
    have hr : ValueRule.ofKind? Catalog.textKind = some .text := rfl
    have he := settlesIn_atom k (hne hi (by decide)) (hi ▸ hr) rfl
    rw [← hatom, show (s.block r).value? "STATE" = _ from hu]
    exact he.bind ((Compile.Settles.pure _).settlesIn [r])
  | blank _ hu =>
    rw [show (s.block r).value? "STATE" = _ from hu]
    exact (Generator.settles_value_none .atomic "\"\"").settlesIn [r]

theorem settlesIn_wrapper (hk : (s.block r).kind = Catalog.stateReferenceStatementKind)
    (h : s.diagram.Names r name) :
    (s.diagram.generator.statement r).SettlesIn [] (quoted name ++ "," ++ "") := by
  have hrule : StatementRule.ofKind? (s.diagram.block r).kind =
      some StatementRule.stateReference := by
    change StatementRule.ofKind? (s.block r).kind = _
    rw [hk]
    rfl
  -- There is a level for the wrapper and one for what stands in it.
  obtain ⟨k, hsize⟩ := Nat.exists_eq_add_one.2 (Nat.zero_lt_of_lt r.isLt)
  have hd : s.diagram.generator = .ofDepth s.diagram (k + 2) :=
    congrArg (fun n => Generator.ofDepth s.diagram (n + 1)) hsize
  rw [hd, Generator.statement_succ, hrule, String.append_assoc]
  apply Compile.SettlesIn.visiting rfl
  apply (settlesIn_wrapped k hk h).bind
  apply Compile.Settles.settlesIn
  exact (Generator.settles_expand_text "," Generator.settles_expand_nil).bind (.pure _)

theorem settlesIn_records {top : Option (Fin s.size)} {rs : List (Fin s.size)} {names : List String}
    (hs : s.diagram.stack top = .ok rs) (h : List.Forall₂ s.diagram.Names rs names)
    (hk : ∀ r ∈ rs, (s.block r).kind = Catalog.stateReferenceStatementKind) :
    (s.diagram.generator.records top).SettlesIn [] (",\n".intercalate (names.map quoted)) := by
  have hf : (rs.mapM s.diagram.generator.statement).SettlesIn []
      ((names.map quoted).map fun text => text ++ "," ++ "") := by
    apply Compile.SettlesIn.mapM
    rw [List.map_map, List.forall₂_map_right_iff]
    apply ((List.forall₂_and_left rs names).2 ⟨hk, h⟩).imp
    intro r name hr
    exact settlesIn_wrapper hr.1 hr.2
  have hv : ∀ text ∈ names.map quoted, Text.StartsVisible text.toList := by
    intro text ht
    obtain ⟨name, -, rfl⟩ := List.mem_map.1 ht
    exact startsVisible_quoted name
  have hl : (Compile.lift (s.diagram.stack top) : Compile (Fin s.size) _).Settles rs := by
    intro c
    rw [hs]
    rfl
  rw [← Fragment.joinRecords_commas hv (t := "") (by decide)]
  apply ((hl.settlesIn []).bind hf).bind
  exact (Compile.Settles.pure _).settlesIn []

/-- The states that may interrupt a state are those that the entries of its stack name, in their
order and as often, and there is no list exactly if there is no entry. So entries can get a wrapper,
or have their names spelled out in the one they have, and the states stay the same. If all entries
are wrappers, the stack is compiled to the names as literals. -/
theorem interruptions_restated (s : Sketch) (r : Fin s.size) (result : Option (List String))
    (h : s.diagram.interruptibleBy (s.block r) = .ok result) :
    ∃ us names, s.diagram.Chain ((s.block r).head? "INTERRUPTIBLE_BY") us ∧
      List.Forall₂ s.diagram.Names us names ∧
      result = (if us.isEmpty then none else some names) ∧
      (∀ (s' : Sketch) (r' : Fin s'.size) (us' : List (Fin s'.size)),
        s'.diagram.Chain ((s'.block r').head? "INTERRUPTIBLE_BY") us' →
        List.Forall₂ (s.diagram.Restates s'.diagram) us us' →
        s'.diagram.interruptibleBy (s'.block r') = .ok result) ∧
      ((∀ u ∈ us, (s.block u).kind = Catalog.stateReferenceStatementKind) →
        ∀ c, c.active = [] →
          s.diagram.generator.records ((s.block r).head? "INTERRUPTIBLE_BY") c =
            .ok (",\n".intercalate (names.map quoted)) c) := by
  obtain ⟨us, names, hs, hn, rfl⟩ := Diagram.interruptibleBy_eq_ok_iff.1 h
  have he : us.isEmpty = names.isEmpty := by cases hn <;> rfl
  refine ⟨us, names, stack_eq_ok_iff.1 hs, hn, by rw [he], ?_, fun hk => ?_⟩
  · intro s' r' us' hc hr
    apply Diagram.interruptibleBy_eq_ok_iff.2
    exact ⟨us', names, stack_eq_ok_iff.2 hc, Diagram.Names.forall₂_restated hn hr, rfl⟩
  · exact settlesIn_records hs hn hk

/-- A state with four entries: one that is bare, and wrappers around a reference to the same state,
around nothing and around a text. -/
def vigilant : Sketch where
  size := 7
  block
    | 0 => { kind := "fsm_state", statements := [("INTERRUPTIBLE_BY", some 1)] }
    | 1 => { kind := "state_reference", fields := [("STATE_NAME", .text "a, \"b\" ")],
             next := some 2 }
    | 2 => { kind := "state_reference_statement", values := [("STATE", some 5)], next := some 3 }
    | 3 => { kind := "state_reference_statement", next := some 4 }
    | 4 => { kind := "state_reference_statement", values := [("STATE", some 6)] }
    | 5 => { kind := "state_reference", fields := [("STATE_NAME", .text "a, \"b\" ")] }
    | 6 => { kind := "text", fields := [("TEXT", .text "c,")] }

/-- The same with a wrapper around the first entry and the name of the second one spelled out. -/
def vigilantRestated : Sketch where
  size := 8
  block
    | 0 => { kind := "fsm_state", statements := [("INTERRUPTIBLE_BY", some 1)] }
    | 1 => { kind := "state_reference_statement", values := [("STATE", some 7)], next := some 2 }
    | 2 => { kind := "state_reference_statement", values := [("STATE", some 5)], next := some 3 }
    | 3 => { kind := "state_reference_statement", next := some 4 }
    | 4 => { kind := "state_reference_statement", values := [("STATE", some 6)] }
    | 5 => { kind := "text", fields := [("TEXT", .text "a, \"b\" ")] }
    | 6 => { kind := "text", fields := [("TEXT", .text "c,")] }
    | 7 => { kind := "state_reference", fields := [("STATE_NAME", .text "a, \"b\" ")] }

theorem chain_vigilant :
    vigilant.diagram.Chain (some (1 : Fin 7))
      [(1 : Fin 7), (2 : Fin 7), (3 : Fin 7), (4 : Fin 7)] :=
  .cons (.cons (.cons (.cons .nil)))

theorem chain_vigilantRestated :
    vigilantRestated.diagram.Chain (some (1 : Fin 8))
      [(1 : Fin 8), (2 : Fin 8), (3 : Fin 8), (4 : Fin 8)] :=
  .cons (.cons (.cons (.cons .nil)))

theorem vigilant_interruptions_restated :
    let names := ["a, \"b\" ", "a, \"b\" ", "", "c,"]
    vigilant.diagram.interruptibleBy (vigilant.block (0 : Fin 7)) = .ok (some names) ∧
      vigilantRestated.diagram.interruptibleBy (vigilantRestated.block (0 : Fin 8)) =
        .ok (some names) ∧
      vigilantRestated.diagram.generator.records (some (1 : Fin 8)) {} =
        .ok (",\n".intercalate (names.map quoted)) {} := by
  intro names
  have h : vigilant.diagram.interruptibleBy (vigilant.block (0 : Fin 7)) = .ok (some names) := by
    rfl
  obtain ⟨us, _, hc, -, -, hr, -⟩ := interruptions_restated vigilant (0 : Fin 7) _ h
  cases hc.unique chain_vigilant
  have h' := hr vigilantRestated (0 : Fin 8) _ chain_vigilantRestated
    (.cons (.wrapped rfl rfl rfl ⟨rfl, rfl⟩)
      (.cons (.spelled rfl rfl rfl rfl rfl rfl rfl)
        (.cons (.kept ⟨rfl, rfl⟩ .none) (.cons (.kept ⟨rfl, rfl⟩ (.some ⟨rfl, rfl⟩)) .nil))))
  obtain ⟨us', _, hc', -, hn, -, hw⟩ := interruptions_restated vigilantRestated (0 : Fin 8) _ h'
  cases hc'.unique chain_vigilantRestated
  cases hn
  exact ⟨h, h', hw (by decide) {} rfl⟩

end Sketch
end BlockMachine
