import BlockMachine.Compiler.Document
import BlockMachine.Machine.Json
import BlockMachine.Proofs.Compiler.Nesting
import BlockMachine.Proofs.Json.Scalar
import BlockMachine.Proofs.Option
import BlockMachine.Proofs.Workspace.Reading

namespace BlockMachine

namespace Json

theorem scalar_arr_iff {items : List Json} : (arr items).Scalar ↔ ∀ j ∈ items, j.Scalar := by
  refine ⟨fun h => ?_, .arr⟩
  cases h with
  | arr hs => exact hs

theorem scalar_obj_iff {members : Table Json} :
    (obj members).Scalar ↔
      (∀ e ∈ members, Text.Scalar e.1.toList) ∧ ∀ e ∈ members, e.2.Scalar := by
  refine ⟨fun h => ?_, fun h => .obj h.1 h.2⟩
  cases h with
  | obj hk hs => exact ⟨hk, hs⟩

theorem scalar_str_iff {s : String} : (str s).Scalar ↔ Text.Scalar s.toList := by
  refine ⟨fun h => ?_, .str⟩
  cases h with
  | str hs => exact hs

theorem Inside.scalar {j k : Json} (h : j.Inside k) (hk : k.Scalar) : j.Scalar := by
  induction h with
  | refl => exact hk
  | item hm _ ih => exact ih (scalar_arr_iff.1 hk _ hm)
  | member hm _ ih => exact ih ((scalar_obj_iff.1 hk).2 _ hm)

end Json

theorem Binary64.scalar_display (x : Binary64) : Text.Scalar x.display.toList := by
  cases x with
  | nan => exact .ascii (by decide)
  | infinite negative => cases negative <;> exact .ascii (by decide)
  | finite negative m p => exact .numeral (Numeral.isNumeralChar_display negative m p)

theorem scalar_decimalText (n : Int) : Text.Scalar (decimalText n).toList := by
  rw [decimalText, String.toList_ofList]
  exact .numeral (Numeral.isNumeralChar_decimal n)

theorem scalar_shownBool (b : Bool) : Text.Scalar (shownBool b).toList := by
  cases b <;> exact .ascii (by decide)

/-- No word of the block has half of a surrogate pair. -/
structure Label.Scalar (l : Label) : Prop where
  kind : Text.Scalar l.kind.toList
  id : ∀ id ∈ l.id, Text.Scalar id.toList
  fields : ∀ e ∈ l.fields, Text.Scalar e.2.display.toList
  extraState : ∀ e ∈ l.extraState.getD [], e.2.Scalar

theorem Block.Says.scalar {ρ : Type} {b : Block ρ} {s : String} (hb : b.toLabel.Scalar)
    (h : b.Says s) : Text.Scalar s.toList := by
  cases h with
  | nothing => exact .nil
  | field hv => exact hb.fields _ (Table.mem_of_get? hv)

namespace Workspace

theorem scalar_fieldValue {j : Json} {v : FieldValue} (hj : j.Scalar) (h : fieldValue? j = some v) :
    Text.Scalar v.display.toList := by
  cases hj with
  | str hs =>
    cases h
    exact hs
  | int n =>
    cases h
    exact scalar_decimalText n
  | float x =>
    cases h
    exact x.scalar_display
  | bool b =>
    cases h
    exact scalar_shownBool b
  | null | arr | obj => cases h

theorem scalar_pair {j : Json} {e : String × Json} (hj : j.Scalar) (h : pair? j = some e) :
    e.2.Scalar := by
  rw [pair?.eq_def] at h
  split at h
  · cases h
    exact Json.scalar_arr_iff.1 hj _ (List.mem_cons_of_mem _ List.mem_cons_self)
  · cases h
    exact .str ((Json.scalar_obj_iff.1 hj).1 _ (List.mem_cons_of_mem _ List.mem_cons_self))
  · split at h
    · rename_i k v hp
      cases h
      obtain ⟨cs, hcs⟩ := (Json.scalar_str_iff.1 hj).exists_points
      have hv : v ∈ cs.map Char.toNat := by
        rw [← hcs, hp]
        exact List.mem_cons_of_mem _ List.mem_cons_self
      obtain ⟨c, -, rfl⟩ := List.mem_map.1 hv
      refine .str ?_
      rw [String.toList_ofList]
      exact .spelling c
    · cases h
  · cases h

theorem scalar_fieldEntries {j : Json} {es : Table Json} (hj : j.Scalar)
    (h : fieldEntries? j = some es) : ∀ e ∈ es, e.2.Scalar := by
  cases j with
  | obj members =>
    cases h
    exact (Json.scalar_obj_iff.1 hj).2
  | arr items =>
    obtain ⟨ps, hps, rfl⟩ := Option.map_eq_some_iff.1 h
    intro e he
    rcases Table.mem_putAll he with hn | he
    · cases hn
    · obtain ⟨item, hi, hp⟩ := exists_of_mapM_eq_some hps e he
      exact scalar_pair (Json.scalar_arr_iff.1 hj _ hi) hp
  | _ => cases h

theorem scalar_fields {j : Json} {fs : Table FieldValue} (hj : j.Scalar)
    (h : fields? j = some fs) : ∀ e ∈ fs, Text.Scalar e.2.display.toList := by
  rw [fields?] at h
  split at h
  · obtain ⟨es, hes, h⟩ := Option.bind_eq_some_iff.1 h
    intro e he
    obtain ⟨e', hm, hf⟩ := exists_of_mapM_eq_some h e he
    obtain ⟨v, hv, rfl⟩ := Option.map_eq_some_iff.1 hf
    exact scalar_fieldValue (scalar_fieldEntries hj hes e' hm) hv
  · cases h
    exact List.forall_mem_nil _

theorem scalar_member {members : Table Json} (hm : (Json.obj members).Scalar) (key : String) :
    (member members key).Scalar := by
  rw [member]
  cases hg : Table.get? members key with
  | none => exact .null
  | some j => exact (Json.inside_of_get? hg).scalar hm

theorem scalar_extraState {j : Json} {state : Option (Table Json)} (hj : j.Scalar)
    (h : extraState? j = some state) : ∀ e ∈ state.getD [], e.2.Scalar := by
  cases j with
  | null =>
    cases h
    exact List.forall_mem_nil _
  | obj members =>
    cases h
    exact (Json.scalar_obj_iff.1 hj).2
  | _ => cases h

theorem scalar_label {members : Table Json} {shadow : Bool} {l : Label}
    (hm : (Json.obj members).Scalar) (h : label members shadow = .ok l) : l.Scalar := by
  obtain ⟨hk, hi, -⟩ := label_eq_ok h
  have hkind := scalar_member hm "type"
  have hid := scalar_member hm "id"
  rw [hk] at hkind
  rw [hi] at hid
  rw [label] at h
  split at h
  · rename_i hl
    cases h
    obtain ⟨_, _, hl⟩ := Option.bind_eq_some_iff.1 hl
    obtain ⟨_, _, hl⟩ := Option.bind_eq_some_iff.1 hl
    obtain ⟨fs, hf, hl⟩ := Option.bind_eq_some_iff.1 hl
    obtain ⟨state, hs, hl⟩ := Option.bind_eq_some_iff.1 hl
    obtain ⟨_, _, hl⟩ := Option.bind_eq_some_iff.1 hl
    obtain ⟨_, _, hl⟩ := Option.bind_eq_some_iff.1 hl
    cases hl
    refine ⟨Json.scalar_str_iff.1 hkind, fun id he => ?_,
      scalar_fields (scalar_member hm "fields") hf,
      scalar_extraState (scalar_member hm "extraState") hs⟩
    rw [he] at hid
    exact Json.scalar_str_iff.1 hid
  · cases h

/-- No block of the workspace has half of a surrogate pair. -/
def Scalar (w : Workspace) : Prop := ∀ t ∈ w.blocks, t.All (·.label.Scalar)

theorem scalar_of_read {document : Json} {w : Workspace} (hd : document.Scalar)
    (h : read document = .ok w) : w.Scalar := by
  intro t ht
  obtain ⟨raw, hi, hr⟩ := exists_raw_of_read h t ht
  refine all_of_readTree (P := Json.Scalar) Json.Inside.scalar ?_ (hi.scalar hd) hr
  intro members shadow l values statements next hm hr
  exact scalar_label hm hr.label

end Workspace

/-- Declarations are to have characters only, and any fault may come up. -/
def Contract.scalar : Contract where
  style := .scalar
  declaration s := Text.Scalar s.toList
  fault _ := True
  accepted h := h
  reported _ := trivial

theorem StatementRule.scalar_functionText {ρ : Type} {b : Block ρ} (hb : b.toLabel.Scalar)
    (name : String) : Style.scalar.Accepts (functionText b name) := by
  have hcode : Style.scalar.Accepts (b.fieldTextD "CODE" "") := (b.says_fieldTextD "CODE").scalar hb
  have hp : Style.scalar.Accepts (", ".intercalate (parameters (b.fieldTextD "PARAMS" ""))) := by
    apply Style.Accepts.intercalate (by decide)
    intro s hs
    obtain ⟨cs, -, rfl⟩ := List.mem_map.1 hs
    exact .fixed (.identifier _)
  have hn : Fixed [] [')'] ("function " ++ identifier name ++ "(") :=
    .append (.append (by decide) (.identifier name)) (by decide)
  have hl := Style.scalar.append (Style.scalar.fixed hn) (Style.scalar.frame hp _)
  exact hcode.enclose (a := ['\x7d']) (Style.scalar.append hl (Style.scalar.fixed (by decide)))
    (by decide)

theorem Diagram.covers_scalar (ts : List Tree) :
    Contract.scalar.Covers (Tree.diagram ts) fun _ t => t.All (·.label.Scalar) where
  mono h := h
  serves {_ t} h := by
    refine ⟨⟨fun hu => h.beneath.value? hu, fun hu => h.beneath.head? hu⟩, fun s hs => ?_⟩
    cases t
    exact hs.scalar h.self
  stack {_ t} h := by
    cases hs : (Tree.diagram ts).stack (some t) with
    | ok us =>
      refine .ok (forall_mem_stackFrom (fun h hn => h.beneath.next _ hn) ?_ hs)
      rintro _ ⟨⟩
      exact h
    | error f => exact .error trivial
  tooDeep _ := trivial
  template _ _ _ := trivial
  branches _ _ _ := trivial
  function {_ t} h _ name := by
    cases t
    exact StatementRule.scalar_functionText h.self name

section Documents

theorem Json.Scalar.record {members : Table Json} (keys : List String)
    (hm : Table.keys members = keys)
    (hk : keys.all (fun key => key.toList.all (·.toNat < 0x80)) = true)
    (h : ∀ e ∈ members, e.2.Scalar) : (Json.obj members).Scalar := by
  refine .obj (fun e he => .ascii (List.all_eq_true.1 hk e.1 ?_)) h
  rw [← hm]
  exact List.mem_map_of_mem he

theorem Transition.Styled.toJson {t : Transition} (h : t.Styled .scalar) : t.toJson.Scalar := by
  have hc : t.condition.toJson.Scalar := by
    refine .record ["text", "order"] rfl (by decide) ?_
    simp only [List.forall_mem_cons]
    exact ⟨.str h.condition, .float _, nofun⟩
  have ht : (Json.str t.tier.text).Scalar := by
    cases t.tier <;> exact .str (.ascii (by decide))
  refine .record ["target", "condition", "description", "tier"] rfl (by decide) ?_
  simp only [List.forall_mem_cons]
  exact ⟨.str h.target, hc, .str h.description, ht, nofun⟩

theorem scalar_transitions {ts : List Transition} (h : ∀ t ∈ ts, t.Styled .scalar) :
    (Json.arr (ts.map Transition.toJson)).Scalar :=
  .arr (List.forall_mem_map.2 fun t ht => (h t ht).toJson)

theorem State.Styled.toJson {s : State} (h : s.Styled .scalar) : s.toJson.Scalar := by
  refine .record ["name", "onEnter", "onExecute", "onExit", "transitions", "interruptibleBy"] rfl
    (by decide) ?_
  simp only [List.forall_mem_cons]
  refine ⟨.str h.name, .str h.onEnter, .str h.onExecute, .str h.onExit,
    scalar_transitions h.transitions, ?_, nofun⟩
  have hi := h.interruptibleBy
  generalize s.interruptibleBy = names at hi
  cases names with
  | none => exact .null
  | some names => exact .arr (List.forall_mem_map.2 fun name hn => .str (hi names rfl name hn))

theorem Contract.Suits.toJson {p : Program} (h : Contract.scalar.Suits p) : p.toJson.Scalar := by
  have hd : (Json.obj (p.definitions.map fun e => (e.1, .str e.2))).Scalar := by
    refine .obj (List.forall_mem_map.2 fun e he => ?_) (List.forall_mem_map.2 fun e he => ?_)
    · exact .of_ascii (h.definitions e he).name.ascii
    · exact .str (h.definitions e he).text
  have hs : (Json.obj (p.states.map fun e => (e.1, e.2.toJson))).Scalar := by
    refine .obj (List.forall_mem_map.2 fun e he => ?_) (List.forall_mem_map.2 fun e he => ?_)
    · exact (h.states e he).1
    · exact (h.states e he).2.toJson
  refine .record
    ["definitions", "initialState", "states", "tacticalTransitions", "emergencyTransitions"] rfl
    (by decide) ?_
  simp only [List.forall_mem_cons]
  exact ⟨hd, .str h.initialState, hs, scalar_transitions h.tactical,
    scalar_transitions h.emergency, nofun⟩

end Documents

theorem Workspace.Scalar.suits {w : Workspace} {p : Program} (h : w.Scalar)
    (hc : w.compile.result = .ok p) : Contract.scalar.Suits p := by
  have hs := (Diagram.covers_scalar w.blocks).compileAll h
  change Contract.scalar.Answers _ w.compile.result at hs
  rw [hc] at hs
  cases hs with
  | ok hs => exact hs

/-- A document without halves of surrogate pairs is compiled to a machine without any, and so is its
script. -/
theorem scalar_of_compileDocument {document : Json} {p : Program} (hd : document.Scalar)
    (h : (compileDocument document).result = .ok p) :
    p.toJson.Scalar ∧ Text.Scalar p.script.toList := by
  rw [compileDocument] at h
  split at h
  · rename_i w hw
    have hs := (Workspace.scalar_of_read hd hw).suits h
    exact ⟨hs.toJson, hs.script fun e he => (hs.definitions e he).text⟩
  · cases h

end BlockMachine
