import BlockMachine.Proofs.Compiler.Faults
import BlockMachine.Proofs.Compiler.Schedule
import BlockMachine.Proofs.Workspace.Blame
import BlockMachine.Proofs.Workspace.Scalar

namespace BlockMachine

namespace Text

theorem toNat_digitChar_lt {n : Nat} (h : n < 16) : n.digitChar.toNat < 0x80 := by
  have hall : ∀ k : Fin 16, (k : Nat).digitChar.toNat < 0x80 := by decide
  exact hall ⟨n, h⟩

theorem toNat_lt_of_mem_toDigits (n : Nat) : ∀ c ∈ Nat.toDigits 16 n, c.toNat < 0x80 := by
  induction n using Nat.strongRecOn with
  | ind n ih =>
    by_cases h : n < 16
    · rw [Nat.toDigits_of_lt_base h]
      exact List.forall_mem_singleton.2 (toNat_digitChar_lt h)
    · rw [Nat.toDigits_of_base_le (by decide) (by omega)]
      exact List.forall_mem_append.2 ⟨ih _ (by omega),
        List.forall_mem_singleton.2 (toNat_digitChar_lt (Nat.mod_lt _ (by decide)))⟩

theorem toNat_lt_of_mem_hexOf (digits n : Nat) : ∀ c ∈ hexOf digits n, c.toNat < 0x80 := by
  refine List.forall_mem_append.2 ⟨fun c hc => ?_, toNat_lt_of_mem_toDigits n⟩
  rw [List.eq_of_mem_replicate hc]
  decide

theorem smallLetter_ne_mark {c : Char} (h : c ≠ mark) : smallLetter c ≠ mark := by
  rw [smallLetter]
  split
  · rename_i r hr
    have hall : ∀ r ∈ capitalRuns, (r.last + r.shift).toNat < mark.toNat := by decide +kernel
    have hlt := hall r (List.mem_of_find?_eq_some hr)
    have hc := List.find?_some hr
    simp only [CapitalRun.covers, Bool.and_eq_true, decide_eq_true_eq] at hc
    have hn : (c.toNat + r.shift).toNat < mark.toNat := by omega
    intro he
    exact absurd (he ▸ toNat_ofNat_le _) (Nat.not_le.2 hn)
  · exact h

namespace Scalar

variable {cs : List Char}

theorem concat {s t : String} (hs : Scalar s.toList) (ht : Scalar t.toList) :
    Scalar (s ++ t).toList := by
  rw [String.toList_append]
  exact hs.append ht

theorem lowercaseFrom (h : Scalar cs) (before : List Char) : Scalar (lowercaseFrom before cs) := by
  induction h generalizing before with
  | nil => exact .nil
  | @char c cs hc _ ih =>
    rw [Text.lowercaseFrom]
    split
    · exact .char (ne_mark (by decide)) (.char (ne_mark (by decide)) (ih _))
    · split
      · split
        · exact .char (ne_mark (by decide)) (ih _)
        · exact .char (ne_mark (by decide)) (ih _)
      · exact .char (smallLetter_ne_mark hc) (ih _)
  | marked _ ih =>
    have hm : mark ≠ 'İ' ∧ mark ≠ 'Σ' ∧ smallLetter mark = mark := by decide +kernel
    have ht : markTail ≠ 'İ' ∧ markTail ≠ 'Σ' ∧ smallLetter markTail = markTail := by decide +kernel
    rw [Text.lowercaseFrom, Text.lowercaseFrom]
    rw [if_neg hm.1, if_neg hm.2.1, if_neg ht.1, if_neg ht.2.1, hm.2.2, ht.2.2]
    exact .marked (ih _)

theorem shownPoint {quote : Char} (hq : quote.toNat < 0x80) (n : Nat) :
    Scalar (shownPoint quote n) := by
  have hp : isPrintable mark = false := by decide +kernel
  have hx (e : Char) (he : e.toNat < 0x80) (digits : Nat) :
      Scalar ('\\' :: e :: hexOf digits n) :=
    .cons (by decide) (.cons he (.of_ascii (toNat_lt_of_mem_hexOf digits n)))
  rw [Text.shownPoint]
  split
  · rename_i h
    rcases h with h | h
    · rw [h]
      exact .cons (by decide) (.cons hq .nil)
    · rw [h]
      exact .ascii (by decide)
  split
  · exact .ascii (by decide)
  split
  · exact .ascii (by decide)
  split
  · exact .ascii (by decide)
  split
  · rename_i h
    refine .char ?_ .nil
    intro he
    rw [he, hp] at h
    cases h
  split
  · exact hx 'x' (by decide) 2
  split
  · exact hx 'u' (by decide) 4
  · exact hx 'U' (by decide) 8

theorem shown (cs : List Char) : Scalar (shown cs) := by
  have hq : (if cs.contains '\'' && !cs.contains '"' then '"' else '\'').toNat < 0x80 := by
    split <;> decide
  exact .cons hq (.append (.flatMap fun n _ => shownPoint hq n) (.cons hq .nil))

end Scalar

end Text

namespace Json.Scalar

theorem shownItems {items : List Json} (h : ∀ j ∈ items, Text.Scalar j.shown.toList) :
    Text.Scalar (shownItems items).toList := by
  induction items with
  | nil => exact .nil
  | cons j js ih =>
    obtain ⟨hj, hjs⟩ := List.forall_mem_cons.1 h
    cases js with
    | nil => exact hj
    | cons k ks => exact (hj.concat (.ascii (by decide))).concat (ih hjs)

theorem shownMembers {members : Table Json} (h : ∀ e ∈ members, Text.Scalar e.2.shown.toList) :
    Text.Scalar (shownMembers members).toList := by
  have hk (key : String) : Text.Scalar (String.ofList (Text.shown key.toList)).toList := by
    rw [String.toList_ofList]
    exact .shown _
  induction members with
  | nil => exact .nil
  | cons e es ih =>
    obtain ⟨hj, hjs⟩ := List.forall_mem_cons.1 h
    have he := ((hk e.1).concat (t := ": ") (.ascii (by decide))).concat hj
    cases es with
    | nil => exact he
    | cons f fs => exact (he.concat (.ascii (by decide))).concat (ih hjs)

theorem shown {j : Json} (h : j.Scalar) : Text.Scalar j.shown.toList := by
  induction h with
  | null => exact .ascii (by decide)
  | bool b => exact scalar_shownBool b
  | int n => exact scalar_decimalText n
  | float x => exact x.scalar_display
  | str _ =>
    rw [Json.shown, String.toList_ofList]
    exact .shown _
  | arr _ ih =>
    rw [Json.shown]
    exact (Text.Scalar.concat (.ascii (by decide)) (shownItems ih)).concat (.ascii (by decide))
  | obj _ _ ih =>
    rw [Json.shown]
    exact (Text.Scalar.concat (.ascii (by decide)) (shownMembers ih)).concat (.ascii (by decide))

theorem display {j : Json} (h : j.Scalar) : Text.Scalar j.display.toList := by
  cases h with
  | str hs => exact hs
  | null | bool | int | float | arr | obj => exact shown (by constructor <;> assumption)

end Json.Scalar

/-- No word of the message about a block has half of a surrogate pair. -/
structure Site.Scalar (s : Site) : Prop where
  kind : Text.Scalar s.kind.toList
  id : ∀ id ∈ s.id, Text.Scalar id.toList

namespace Site.Scalar

variable {s : Site}

theorem idText (h : s.Scalar) : Text.Scalar s.idText.toList := by
  have hi := h.id
  rw [Site.idText]
  generalize s.id = id at hi
  cases id with
  | none => exact .ascii (by decide)
  | some id => exact hi id rfl

theorem describe (h : s.Scalar) : Text.Scalar s.describe.toList := by
  rw [Site.describe]
  split
  · rename_i id hid
    split
    · exact h.kind
    · exact (h.kind.concat (.ascii (by decide))).concat (h.id id hid)
  · exact h.kind

end Site.Scalar

/-- The words that a message is made of have no halves of surrogate pairs. -/
def RuleFault.Scalar : RuleFault → Prop
  | .unknownKind _ s | .cycle s | .notGlobal s => s.Scalar
  | .invalidCount key count s => Text.Scalar key.toList ∧ count.Scalar ∧ s.Scalar
  | .notAStateName wrapper s => wrapper.Scalar ∧ s.Scalar
  | .missingField word s | .invalidNumber word s | .unknownComparison word s
  | .unknownConnective word s | .unknownArithmetic word s | .unknownCoordinate word s =>
    Text.Scalar word.toList ∧ s.Scalar

theorem RuleFault.Scalar.site {f : RuleFault} (h : f.Scalar) : f.site.Scalar := by
  cases f with
  | unknownKind | cycle | notGlobal => exact h
  | invalidCount => exact h.2.2
  | notAStateName | missingField | invalidNumber | unknownComparison | unknownConnective
  | unknownArithmetic | unknownCoordinate => exact h.2

theorem RuleFault.Scalar.message {f : RuleFault} (h : f.Scalar) : Text.Scalar f.message.toList := by
  have hw {l r word : String} (hl : l.toList.all (·.toNat < 0x80) = true)
      (hr : r.toList.all (·.toNat < 0x80) = true) (hw : Text.Scalar word.toList) :
      Text.Scalar (l ++ word ++ r).toList :=
    (Text.Scalar.concat (.ascii hl) hw).concat (.ascii hr)
  cases f with
  | unknownKind role s =>
    have hr : Text.Scalar role.text.toList := by cases role <;> exact .ascii (by decide)
    have hk := (hw (l := "No ") (r := " rule for block kind '") (by decide) (by decide) hr).concat
      (Site.Scalar.kind h)
    exact ((hk.concat (.ascii (by decide))).concat (Site.Scalar.idText h)).concat
      (.ascii (by decide))
  | cycle s =>
    exact ((hw (l := "Cycle detected at block ") (r := " (") (by decide) (by decide)
      (Site.Scalar.idText h)).concat (Site.Scalar.kind h)).concat (.ascii (by decide))
  | missingField word s =>
    exact ((((hw (l := "Block ") (r := " (") (by decide) (by decide) h.2.idText).concat
      h.2.kind).concat (.ascii (by decide))).concat h.1).concat (.ascii (by decide))
  | notGlobal s =>
    exact ((hw (l := "Block ") (r := " (") (by decide) (by decide) (Site.Scalar.idText h)).concat
      (Site.Scalar.kind h)).concat (.ascii (by decide))
  | invalidCount key count s =>
    exact (((hw (l := "Invalid ") (r := " ") (by decide) (by decide) h.1).concat
      h.2.1.shown).concat (.ascii (by decide))).concat h.2.2.describe
  | invalidNumber | unknownComparison | unknownConnective | unknownArithmetic
  | unknownCoordinate => exact hw (by decide) (by decide) h.1
  | notAStateName wrapper s =>
    exact ((hw (l := "Interruption reference ") (r := " must hold a state name, got '") (by decide)
      (by decide) h.1.describe).concat h.2.kind).concat (.ascii (by decide))

def FormatFault.Scalar : FormatFault → Prop
  | .untypedBlock raw => raw.Scalar
  | .malformedInputs id kind | .malformedConnection id kind | .malformedBlock id kind =>
    id.Scalar ∧ kind.Scalar
  | .severalRoots ids => ∀ id ∈ ids, ∀ s ∈ id, Text.Scalar s.toList
  | .notAnObject | .sectionNotAnObject | .blocksNotAList | .noRoot => True

structure Report.Scalar (r : Report) : Prop where
  message : Text.Scalar r.message.toList
  id : r.id.Scalar
  kind : r.kind.Scalar

theorem RuleFault.Scalar.report {f : RuleFault} (h : f.Scalar) : f.report.Scalar :=
  ⟨h.message, .ofText? h.site.id, .str h.site.kind⟩

theorem scalar_intercalate {ss : List String} (h : ∀ s ∈ ss, Text.Scalar s.toList) :
    Text.Scalar (", ".intercalate ss).toList :=
  Style.Accepts.intercalate (φ := .scalar) (by decide) h

theorem FormatFault.Scalar.report {f : FormatFault} (h : f.Scalar) : f.report.Scalar := by
  have hl {s : String} (h : s.toList.all (·.toNat < 0x80) = true) : Text.Scalar s.toList :=
    .ascii h
  cases f with
  | notAnObject | sectionNotAnObject | blocksNotAList => exact ⟨hl (by decide), .null, .null⟩
  | noRoot => exact ⟨hl (by decide), .null, .str (hl (by decide))⟩
  | untypedBlock raw => exact ⟨(hl (by decide)).concat (Json.Scalar.shown h), .null, .null⟩
  | malformedInputs id kind | malformedConnection id kind =>
    exact ⟨(hl (by decide)).concat h.1.display, h.1, h.2⟩
  | malformedBlock id kind =>
    have hm := ((hl (s := "Malformed block ") (by decide)).concat h.1.display).concat
      (hl (s := " (") (by decide))
    exact ⟨(hm.concat h.2.display).concat (hl (by decide)), h.1, .str h.2.display⟩
  | severalRoots ids =>
    have hids : Text.Scalar (", ".intercalate (ids.map (·.getD "None"))).toList := by
      refine scalar_intercalate (List.forall_mem_map.2 fun id hid => ?_)
      cases id with
      | none => exact .ascii (by decide)
      | some s => exact h _ hid s rfl
    have hn := (hl (s := "Workspace has ") (by decide)).concat (scalar_decimalText ids.length)
    have hm := ((hn.concat (hl (s := " '") (by decide))).concat
      (hl (s := Catalog.rootKind) (by decide))).concat (hl (s := "' blocks (") (by decide))
    refine ⟨(hm.concat hids).concat (hl (by decide)), .ofText? ?_, .str (hl (by decide))⟩
    intro s hs
    cases hi : ids[1]? with
    | none =>
      rw [hi] at hs
      cases hs
    | some id =>
      rw [hi] at hs
      exact h id (List.mem_of_getElem? hi) s hs

namespace Block

variable {ρ : Type} {b : Block ρ} {place : Place} {f : Fault}

theorem scalar_site (h : b.toLabel.Scalar) : b.site.Scalar := ⟨h.kind, h.id⟩

theorem scalar_fieldTextD (h : b.toLabel.Scalar) {default : String}
    (hd : Text.Scalar default.toList) (name : String) :
    Text.Scalar (b.fieldTextD name default).toList := by
  rw [fieldTextD]
  cases hv : b.field? name with
  | none => exact hd
  | some v => exact h.fields _ (Table.mem_of_get? hv)

theorem scalar_missing (h : b.toLabel.Scalar) {name : String} (hn : name ∈ b.required) :
    (RuleFault.missingField name b.site).Scalar := by
  have hall : requiredFields.all
      (fun e => e.2.all fun name => name.toList.all (·.toNat < 0x80)) = true := by decide
  rw [required] at hn
  cases hg : Table.get? requiredFields b.kind with
  | none =>
    rw [hg] at hn
    cases hn
  | some names =>
    rw [hg] at hn
    have hnames := List.all_eq_true.1 hall _ (Table.mem_of_get? hg)
    exact ⟨.ascii (List.all_eq_true.1 hnames name hn), scalar_site h⟩

theorem scalar_count (h : b.toLabel.Scalar) {key : String} (hk : Text.Scalar key.toList)
    {names : List String} {digits? : String → Option (List Nat)} {f : RuleFault}
    (hf : b.InvalidCount key names digits? (.rule f)) : f.Scalar := by
  cases hf with
  | state hs _ => exact ⟨hk, h.extraState _ (Table.mem_of_get? hs), scalar_site h⟩

theorem scalar_check (h : b.toLabel.Scalar) {wrong : Block ρ → Fault → Prop} {f : RuleFault}
    (hw : Table.get? checks b.kind = some wrong) (hf : wrong b (.rule f)) : f.Scalar := by
  have hs := scalar_site h
  have hword {name default : String} (hd : default.toList.all (·.toNat < 0x80) = true) :
      Text.Scalar (b.fieldTextD name default).toList := scalar_fieldTextD h (.ascii hd) name
  have hm := Table.mem_of_get? hw
  simp only [checks, List.mem_cons, Prod.mk.injEq, List.not_mem_nil, or_false] at hm
  rcases hm with ⟨-, rfl⟩ | ⟨-, rfl⟩ | ⟨-, rfl⟩ | ⟨-, rfl⟩ | ⟨-, rfl⟩ | ⟨-, rfl⟩ | ⟨-, rfl⟩
  · cases hf with
    | mk hn _ => exact ⟨hn ▸ hword (by decide), hs⟩
  · cases hf with
    | mk hn _ => exact ⟨hn ▸ hword (by decide), hs⟩
  · cases hf with
    | mk hn _ => exact ⟨hn ▸ hword (by decide), hs⟩
  · cases hf with
    | mk hn _ =>
      refine ⟨?_, hs⟩
      rw [← hn, lowercased, String.toList_ofList]
      exact (hword (by decide)).lowercaseFrom []
  · cases hf with
    | numeral hv _ => exact ⟨h.fields _ (Table.mem_of_get? hv), hs⟩
  · exact scalar_count h (.ascii (by decide)) hf
  · exact scalar_count h (.ascii (by decide)) hf

end Block

def Place.wrapper? : Place → Option Site
  | .stateName wrapper => some wrapper
  | _ => none

namespace Position

/-- No word at the position has half of a surrogate pair, and neither has the wrapper around it. -/
structure Scalar (p : Position) : Prop where
  tree : p.tree.All (·.label.Scalar)
  wrapper : ∀ s ∈ p.place.wrapper?, s.Scalar

variable {p q : Position}

theorem Scalar.block (h : p.Scalar) : p.tree.block.toLabel.Scalar := by
  have ht := h.tree.self
  cases hp : p.tree with
  | node l values statements next =>
    rw [hp] at ht
    exact ht

theorem Scalar.fault (h : p.Scalar) {f : RuleFault} (hf : p.Faulty (.rule f)) : f.Scalar := by
  have hb := h.block
  have hs := Block.scalar_site hb
  have hw := h.wrapper
  cases hf with
  | misplaced =>
    generalize p.place = place at hw
    cases place with
    | stateName wrapper => exact ⟨hw wrapper rfl, hs⟩
    | _ => exact hs
  | broken _ hf =>
    cases hf with
    | field hn _ => exact Block.scalar_missing hb hn
    | check hw hf => exact Block.scalar_check hb hw hf

theorem wrapper?_of_mem_readStacks {ρ : Type} {b : Block ρ} {e : String × Place}
    (h : e ∈ b.readStacks) : e.2.wrapper? = none := by
  have hall : ∀ es ∈ stackSockets, ∀ e ∈ es.2, e.2.wrapper? = none := by decide
  rw [Block.readStacks] at h
  split at h
  · split at h
    · rcases List.mem_append.1 h with h | h
      · obtain ⟨i, -, rfl⟩ := List.mem_map.1 h
        rfl
      · cases List.mem_singleton.1 h
        rfl
    · cases h
  · cases hg : Table.get? stackSockets b.kind with
    | none =>
      rw [hg] at h
      cases h
    | some es =>
      rw [hg] at h
      exact hall _ (Table.mem_of_get? hg) e h

theorem Scalar.reads (h : p.Scalar) (hq : q ∈ p.reads) : q.Scalar := by
  rw [Position.reads] at hq
  split at hq
  · rcases List.mem_append.1 hq with hq | hq
    · obtain ⟨socket, -, hq⟩ := List.mem_flatMap.1 hq
      obtain ⟨u, hu, rfl⟩ := List.mem_map.1 hq
      refine ⟨h.tree.beneath.value? (Option.mem_toList.1 hu), fun s hs => ?_⟩
      have hb := Block.scalar_site h.block
      generalize p.place = place at hs
      cases place with
      | interruption =>
        cases hs
        exact hb
      | _ => cases hs
    · obtain ⟨e, he, hq⟩ := List.mem_flatMap.1 hq
      obtain ⟨u, hu, rfl⟩ := List.mem_map.1 hq
      obtain ⟨v, hv, hu⟩ := Tree.exists_head_of_mem_readStack hu
      refine ⟨(h.tree.beneath.head? hv).of_within hu, fun s hs => ?_⟩
      rw [wrapper?_of_mem_readStacks he] at hs
      cases hs
  · cases hq

theorem Scalar.reaches (h : p.Scalar) (hq : p.Reaches q) : q.Scalar := by
  induction hq with
  | refl => exact h
  | tail _ hr ih => exact ih.reads hr

theorem scalar_starts {root : Tree} {beside : List Tree} (hr : root.All (·.label.Scalar))
    (hb : ∀ t ∈ beside, t.All (·.label.Scalar)) : ∀ p ∈ starts root beside, p.Scalar := by
  intro p hp
  rcases List.mem_cons.1 hp with rfl | hp
  · exact ⟨hr, nofun⟩
  · obtain ⟨top, ht, hp⟩ := List.mem_flatMap.1 hp
    obtain ⟨u, hu, rfl⟩ := List.mem_map.1 hp
    have hu := Tree.within_of_mem_stacked (List.mem_filter.1 hu).1
    exact ⟨(hb top ht).of_within hu, nofun⟩

end Position

namespace Diagram

variable {ρ : Type} {d : Diagram ρ} {tops : List ρ}

theorem mem_of_root {r : ρ} (h : d.root tops = .ok r) : r ∈ tops := by
  rw [root] at h
  split at h
  · cases h
  · rename_i s hs
    cases h
    have hm : r ∈ tops.filter d.isRoot := hs ▸ List.mem_cons_self
    exact (List.mem_filter.1 hm).1
  · cases h

theorem root_eq_error {f : Fault} (h : d.root tops = .error f) :
    f = .format .noRoot ∨
      ∃ rs, rs ⊆ tops ∧ f = .format (.severalRoots (rs.map fun r => (d.block r).id)) := by
  rw [root] at h
  split at h
  · cases h
    exact .inl rfl
  · cases h
  · cases h
    exact .inr ⟨_, List.filter_subset_self _, rfl⟩

end Diagram

/-- No word of what is said about a fault has half of a surrogate pair. -/
def Fault.Scalar (f : Fault) : Prop := ∀ report ∈ f.report?, report.Scalar

namespace Workspace

theorem Scalar.fault {w : Workspace} (hw : w.Scalar) {f : Fault}
    (h : w.compile.result = .error f) : f.Scalar := by
  rw [compile, Diagram.compileAll] at h
  cases hroot : w.diagram.root w.blocks with
  | error e =>
    rw [hroot] at h
    cases h
    rcases Diagram.root_eq_error hroot with rfl | ⟨rs, hrs, rfl⟩
    · rintro _ ⟨⟩
      exact FormatFault.Scalar.report (f := .noRoot) trivial
    · rintro _ ⟨⟩
      refine FormatFault.Scalar.report (f := .severalRoots _) (List.forall_mem_map.2 fun r hr => ?_)
      cases r
      exact (hw _ (hrs hr)).self.id
  | ok root =>
    rw [hroot] at h
    obtain ⟨p, hp, q, hq, hf⟩ := (Tree.compile_detects (Diagram.mem_of_root hroot)
      (fun t ht => (List.mem_filter.1 ht).1)).2 f h
    have hs := (Position.scalar_starts (hw root (Diagram.mem_of_root hroot))
      (fun t ht => hw t (List.mem_filter.1 ht).1) p hp).reaches hq
    cases f with
    | format e => exact (Block.Faulty.concerns hf).elim
    | defect d => rintro _ ⟨⟩
    | rule e =>
      rintro _ ⟨⟩
      exact (hs.fault hf).report

theorem scalar_of_blamed {document : Json} (hd : document.Scalar) {f : FormatFault}
    (h : Blamed document f) : f.Scalar := by
  cases h with
  | untyped hr => exact hr.scalar hd
  | block hm hb =>
    have hs := scalar_member (hm.scalar hd)
    cases hb with
    | inputs | socket | next | label => exact ⟨hs "id", hs "type"⟩

end Workspace

theorem scalar_fault_of_compileDocument {document : Json} {f : Fault} (hd : document.Scalar)
    (h : (compileDocument document).result = .error f) : f.Scalar := by
  rw [compileDocument] at h
  split at h
  · rename_i w hw
    exact (Workspace.scalar_of_read hd hw).fault h
  · rename_i e he
    cases h
    rcases Workspace.accounted_document he with ⟨g, rfl⟩ | ⟨rfl, -⟩
    · rintro _ ⟨⟩
      rcases Workspace.blamed_document he with (rfl | rfl | rfl) | hb
      · exact FormatFault.Scalar.report (f := .notAnObject) trivial
      · exact FormatFault.Scalar.report (f := .sectionNotAnObject) trivial
      · exact FormatFault.Scalar.report (f := .blocksNotAList) trivial
      · exact (Workspace.scalar_of_blamed hd hb).report
    · rintro _ ⟨⟩

end BlockMachine
