import BlockMachine.Proofs.Compiler.Lines
import BlockMachine.Proofs.Compiler.Numbering
import BlockMachine.Proofs.Script.Forms

namespace BlockMachine

open Outline

variable {ρ : Type}

/-- The marks of a part, given whose its names are and the marks of what the slots hold. -/
def Part.marks (origin : String → Mark) (slot : String → String → List Mark) : Part → List Mark
  | .text s => (names s).map origin
  | .slot socket _ default => slot socket default
  | .fail _ => []

/-- Whose the names in the texts of a rule are. -/
def ValueRule.origin : ValueRule → String → Mark
  | .localVariable | .constant | .functionCall => (.author · false)
  | _ => .script

def slotMarks (value : ρ → List Mark) (b : Block ρ) (socket default : String) : List Mark :=
  (b.value? socket).elim (scripted default) value

/-- What is mentioned in the text of a value block, from left to right. -/
def Diagram.valueMarks (d : Diagram ρ) : Nat → ρ → List Mark
  | 0, _ => []
  | depth + 1, r =>
    match ValueRule.ofKind? (d.block r).kind with
    | none => []
    | some rule =>
      match rule.template (d.block r) with
      | .error _ => []
      | .ok t =>
        t.parts.flatMap (Part.marks rule.origin (slotMarks (d.valueMarks depth) (d.block r)))

def Part.isScript : Part → Bool
  | .slot _ _ default => isScriptValue default.toList
  | _ => true

/-- The text of a part, given the marks of what the slots hold. -/
def Part.Shows (slot : String → String → List Mark) : Part → String → Prop
  | .text t, s => s = t
  | .slot socket _ default, s => IsValue s (slot socket default)
  | .fail _, _ => False

/-- Parts that make up a value, whatever stands in the slots. -/
structure Composes (origin : String → Mark) (parts : List Part) : Prop where
  defaults : ∀ part ∈ parts, part.isScript = true
  value {slot : String → String → List Mark} {texts : List String} :
    List.Forall₂ (Part.Shows slot) parts texts →
      IsValue (String.join texts) (parts.flatMap (Part.marks origin slot))

namespace ValueRule

theorem composes_text {origin : String → Mark} {s : String}
    (h : IsValue s ((names s).map origin)) : Composes origin [.text s] := by
  refine ⟨List.forall_mem_singleton.2 rfl, fun {slot texts} ht => ?_⟩
  obtain _ | ⟨rfl, _ | _⟩ := ht
  simpa [Part.marks, String.join_cons] using h

theorem composes_binary {operator default : String}
    (ho : isScriptCloser (" " ++ operator ++ " ").toList = true)
    (hd : isScriptValue default.toList = true) (order : Order) :
    Composes .script (binary operator order default).parts := by
  refine ⟨List.forall_mem_cons.2 ⟨hd, List.forall_mem_cons.2 ⟨rfl,
    List.forall_mem_singleton.2 hd⟩⟩, fun {slot texts} ht => ?_⟩
  obtain _ | ⟨hl, _ | ⟨rfl, _ | ⟨hr, _ | _⟩⟩⟩ := ht
  have h := IsValue.operator hl hr ho
  simpa [binary, Part.marks, String.join_cons, String.append_assoc, scripted] using h

theorem composes_identifier (name : String) :
    Composes (.author · false) [.text (identifier name)] := by
  apply composes_text
  rw [names_identifier]
  exact isValue_identifier name (.inr rfl)

theorem composes_quoted (text : String) : Composes .script [.text (quoted text)] := by
  apply composes_text
  rw [names_quoted]
  exact isValue_quoted text

theorem names_key {l : String} (hl : finish l = .code) (key : String) :
    names (l ++ quoted key ++ "]") = names l := by
  have hd : (finish (l ++ quoted key)).isDone = true := by
    rw [(tokens_of_clear hl _).2]
    exact (of_quoted key).1.done
  rw [names_of_breaks hd (by decide), names_of_clear hl, names_quoted, List.append_nil]
  exact List.append_nil _

theorem value_listSlots {slot : String → String → List Mark} {is : List Nat}
    {texts : List String}
    (h : List.Forall₂ (Part.Shows slot)
      ((is.map listSlot).intersperse (.text ", ") ++ [.text "]"]) texts) :
    ∃ inner, String.join texts = inner ++ "]" ∧
      IsValue inner (((is.map listSlot).intersperse (.text ", ")).flatMap
        (Part.marks .script slot)) := by
  induction is generalizing texts with
  | nil =>
    obtain _ | ⟨rfl, _ | _⟩ := h
    exact ⟨"", rfl, isCode_empty.isValue⟩
  | cons i is ih =>
    cases is with
    | nil =>
      obtain _ | ⟨hi, _ | ⟨rfl, _ | _⟩⟩ := h
      refine ⟨_, String.join_cons, ?_⟩
      change IsValue _ (_ ++ [])
      rw [List.append_nil]
      exact hi
    | cons j is =>
      obtain _ | ⟨hi, _ | ⟨rfl, hr⟩⟩ := h
      obtain ⟨inner, hj, hv⟩ := ih hr
      have ho := IsValue.operator hi hv (u := ", ") (by decide)
      rw [List.append_assoc] at ho
      refine ⟨_, ?_, ho⟩
      rw [String.join_cons, String.join_cons, hj, ← String.append_assoc, ← String.append_assoc]

theorem composes_listTemplate (count : Nat) : Composes .script (listTemplate count).parts := by
  have hs (i : Nat) : (listSlot i).isScript = true := by
    rw [listSlot, Part.isScript]
    decide
  refine ⟨?_, fun {slot texts} ht => ?_⟩
  · exact List.forall_mem_append.2 ⟨List.forall_mem_cons.2 ⟨rfl,
      forall_mem_slots (p := (·.isScript = true)) hs rfl _⟩, List.forall_mem_singleton.2 rfl⟩
  · obtain _ | ⟨rfl, ht⟩ := ht
    obtain ⟨inner, hj, hv⟩ := value_listSlots ht
    have hb := hv.isTold.opened (b := .square) (l := "[") (r := "]") (by decide) (by decide)
    rw [String.join_cons, hj, ← String.append_assoc]
    simpa [listTemplate, Part.marks, scripted] using hb

theorem composes_coordinate {name : String} (hv : isScriptValue name.toList = true) :
    Composes .script
      [.slot "POSITION" .member "\x7b x: 0, y: 0 \x7d", .text ("." ++ name)] := by
  refine ⟨List.forall_mem_cons.2 ⟨by decide, List.forall_mem_singleton.2 rfl⟩,
    fun {slot texts} ht => ?_⟩
  obtain _ | ⟨hp, _ | ⟨rfl, _ | _⟩⟩ := ht
  have ho := IsValue.operator hp (isValue_of_script hv) (u := ".") (by decide)
  simpa [Part.marks, String.join_cons, String.append_assoc, scripted,
    names_of_clear (s := ".") (by decide)] using ho

theorem composes_spreadCall (name : String) :
    Composes (.author · false)
      [.text (identifier name ++ "(..."), .slot "ARGS" .atomic "[]", .text ")"] := by
  refine ⟨List.forall_mem_cons.2 ⟨rfl, by decide⟩, fun {slot texts} ht => ?_⟩
  obtain _ | ⟨rfl, _ | ⟨ha, _ | ⟨rfl, _ | _⟩⟩⟩ := ht
  have hn : names (identifier name ++ "(...") = [identifier name] := by
    rw [names_of_breaks (of_identifier name).done (by decide), names_identifier]
    rfl
  have hs : IsCode "..." [] := isCode_of_script (by decide)
  have hb := (isValue_identifier name (.inr rfl)).group (hs.append_value ha).isTold
    (l := "(") (r := ")") (b := .round) (by decide) (by decide)
  have hc : names ")" = [] := by decide
  have hj (a : String) : String.join [identifier name ++ "(...", a, ")"] =
      identifier name ++ "(" ++ ("..." ++ a) ++ ")" := by
    apply String.toList_injective
    simp
  rw [hj]
  simpa [Part.marks, hn, hc] using hb

theorem composes_call {l : String} (hl : isScriptOpener .round l.toList = true)
    (socket : String) (context : Order) {default : String}
    (hd : isScriptValue default.toList = true) :
    Composes .script [.text l, .slot socket context default, .text ")"] := by
  refine ⟨List.forall_mem_cons.2 ⟨rfl, List.forall_mem_cons.2 ⟨hd,
    List.forall_mem_singleton.2 rfl⟩⟩, fun {slot texts} ht => ?_⟩
  obtain _ | ⟨rfl, _ | ⟨ha, _ | ⟨rfl, _ | _⟩⟩⟩ := ht
  have hb := (IsValue.isTold ha).opened (r := ")") hl (by decide)
  simpa [Part.marks, String.join_cons, String.append_assoc, scripted] using hb

theorem composes_power : Composes .script powerTemplate.parts := by
  refine ⟨by decide, fun {slot texts} ht => ?_⟩
  obtain _ | ⟨rfl, _ | ⟨hl, _ | ⟨rfl, _ | ⟨hr, _ | ⟨rfl, _ | _⟩⟩⟩⟩⟩ := ht
  have ho := IsValue.operator hl hr (u := ", ") (by decide)
  have hb := ho.isTold.opened (b := .round) (l := "Math.pow(") (r := ")") (by decide)
    (by decide)
  simpa [powerTemplate, Part.marks, String.join_cons, String.append_assoc, scripted] using hb

variable {b : Block ρ} {rule : ValueRule} {t : Template}

theorem composes_template (hr : ∀ parts order, rule ≠ .inline parts order)
    (h : rule.template b = .ok t) : Composes rule.origin t.parts := by
  cases makes_of_template h with
  | inline parts order => exact absurd rfl (hr parts order)
  | boolean hw =>
    rcases hw with rfl | rfl <;> exact composes_text (isValue_of_script (by decide))
  | number x => exact composes_text (isValue_numeral x)
  | text | stateName => exact composes_quoted _
  | binary hb ho hd =>
    have hall : ∀ e ∈ operations, isScriptCloser (" " ++ e.2.1 ++ " ").toList = true := by decide
    have hx : rule.origin = .script := by rcases hb with rfl | rfl | rfl <;> rfl
    rw [hx]
    rcases hd with rfl | rfl | rfl <;> exact composes_binary (hall _ ho) (by decide) _
  | power => exact composes_power
  | list count => exact composes_listTemplate count
  | gameConstant name =>
    have hc : IsCode "context.constants." (scripted "context.constants.") :=
      isCode_of_script (by decide)
    apply composes_text
    rw [names_of_clear (by decide), List.map_append, names_identifier]
    exact hc.append_value (isValue_identifier name (.inl rfl))
  | coordinate hn => rcases hn with rfl | rfl <;> exact composes_coordinate (by decide)
  | @property name =>
    refine ⟨List.forall_mem_cons.2 ⟨by decide, List.forall_mem_singleton.2 rfl⟩,
      fun {slot texts} ht => ?_⟩
    obtain _ | ⟨ho, _ | ⟨rfl, _ | _⟩⟩ := ht
    have hb := IsValue.group ho (isValue_quoted name).isTold (l := "[") (r := "]") (b := .square)
      (by decide) (by decide)
    have hn : names ("[" ++ quoted name ++ "]") = [] := names_key (by decide) name
    rw [String.append_assoc] at hn
    simpa [Part.marks, hn, String.join_cons, String.append_assoc] using hb
  | @memory key =>
    apply composes_text
    rw [names_key (by decide)]
    have ho := (isValue_quoted key).isTold.opened (b := .square)
      (l := "(api.getMemory() || \x7b\x7d)[") (r := "]") (by decide) (by decide)
    simpa [origin, scripted, show names "]" = [] by decide] using ho
  | localVariable name | constant name => exact composes_identifier name
  | call name => exact composes_spreadCall name
  | unnamedCall =>
    refine ⟨List.forall_mem_cons.2 ⟨by decide, List.forall_mem_singleton.2 rfl⟩,
      fun {slot texts} ht => ?_⟩
    obtain _ | ⟨-, _ | ⟨⟨⟩, -⟩⟩ := ht

def IsComposed (rule : ValueRule) : Prop := ∀ parts ∈ rule.inline?, Composes .script parts

theorem isComposed_fixed {l : List Char} (h : isScriptValue l = true) (order : Order) :
    (fixed (String.ofList l) order).IsComposed := by
  rintro _ ⟨⟩
  exact composes_text (isValue_of_literal h)

set_option maxRecDepth 4096 in
theorem isComposed_fixedTable : ∀ e ∈ fixedTable, e.2.IsComposed := by
  unfold fixedTable enemyDistance turretAligned
  repeat refine List.forall_mem_cons.2 ⟨isComposed_fixed (by decide) _, ?_⟩
  simp

theorem isComposed_negation : negation.IsComposed := by
  rintro _ ⟨⟩
  refine ⟨by decide, fun {slot texts} ht => ?_⟩
  obtain _ | ⟨rfl, _ | ⟨hv, _ | _⟩⟩ := ht
  have hc : IsCode "!" (scripted "!") := isCode_of_script (by decide)
  simpa [Part.marks, String.join_cons, scripted] using hc.append_value hv

theorem isComposed_conditional : conditional.IsComposed := by
  rintro _ ⟨⟩
  refine ⟨by decide, fun {slot texts} ht => ?_⟩
  obtain _ | ⟨hi, _ | ⟨rfl, _ | ⟨ht, _ | ⟨rfl, _ | ⟨he, _ | _⟩⟩⟩⟩⟩ := ht
  have ho := (IsValue.operator hi ht (u := " ? ") (by decide)).operator he (u := " : ") (by decide)
  simpa [Part.marks, String.join_cons, String.append_assoc, scripted] using ho

theorem isComposed_position : position.IsComposed := by
  rintro _ ⟨⟩
  refine ⟨by decide, fun {slot texts} ht => ?_⟩
  obtain _ | ⟨rfl, _ | ⟨hx, _ | ⟨rfl, _ | ⟨hy, _ | ⟨rfl, _ | _⟩⟩⟩⟩⟩ := ht
  have hc : IsCode " x: " (scripted "\x7b x: ") := isCode_of_script (s := " x: ") (by decide)
  have ho := hc.append_value (IsValue.operator hx hy (u := ", y: ") (by decide))
  have hb := (ho.isTold.braces (l := "\x7b") (r := " \x7d") (by decide) (by decide)).isValue
  have hj (x y : String) : String.join ["\x7b x: ", x, ", y: ", y, " \x7d"] =
      "\x7b" ++ (" x: " ++ (x ++ ", y: " ++ y)) ++ " \x7d" := by
    apply String.toList_injective
    simp
  rw [hj]
  simpa [Part.marks, scripted, show names " \x7d" = [] by decide] using hb

theorem isComposed_orbit : orbit.IsComposed := by
  rintro _ ⟨⟩
  refine ⟨by decide, fun {slot texts} ht => ?_⟩
  obtain _ | ⟨rfl, _ | ⟨hp, _ | ⟨rfl, _ | ⟨hd, _ | ⟨rfl, _ | ⟨hr, _ | ⟨rfl, _ | _⟩⟩⟩⟩⟩⟩⟩ := ht
  have ho := (IsValue.operator hp hd (u := ", ") (by decide)).operator hr (u := ", ") (by decide)
  have hb := ho.isTold.opened (b := .round) (l := "api.getOrbitingPosition(") (r := ")")
    (by decide) (by decide)
  simpa [Part.marks, String.join_cons, String.append_assoc, scripted] using hb

theorem isComposed_call {l default : String} (hl : isScriptOpener .round l.toList = true)
    (hd : isScriptValue default.toList = true) (context order : Order) :
    IsComposed (.inline [.text l, .slot "POSITION" context default, .text ")"] order) := by
  rintro _ ⟨⟩
  exact composes_call hl "POSITION" context hd

theorem isComposed_of_inline? {rule : ValueRule} (h : rule.inline? = none) : rule.IsComposed := by
  rw [IsComposed, h]
  rintro _ ⟨⟩

theorem isComposed_table : ∀ e ∈ table, e.2.IsComposed := by
  refine List.forall_mem_append.2 ⟨isComposed_fixedTable, ?_⟩
  have hp : (positionQuery "api.isPositionValid").IsComposed ∧
      (positionQuery "api.isLineOfSightClear").IsComposed ∧ moveAndCheck.IsComposed :=
    ⟨isComposed_call (by decide) (by decide) _ _,
      isComposed_call (by decide) (by decide) _ _,
      isComposed_call (by decide) (by decide) _ _⟩
  repeat refine List.forall_mem_cons.2 ⟨by first
    | exact isComposed_of_inline? rfl | exact isComposed_negation | exact isComposed_conditional
    | exact isComposed_position | exact isComposed_orbit | exact hp.1 | exact hp.2.1
    | exact hp.2.2, ?_⟩
  simp

theorem composes_of_template (hk : ofKind? b.kind = some rule) (h : rule.template b = .ok t) :
    Composes rule.origin t.parts := by
  by_cases hr : ∃ parts order, rule = .inline parts order
  · obtain ⟨parts, order, rfl⟩ := hr
    cases h
    exact isComposed_table _ (Table.mem_of_get? hk) parts rfl
  · exact composes_template (fun parts order he => hr ⟨parts, order, he⟩) h

end ValueRule

theorem Expression.isValue_within {e : Expression} {ks : List Mark} (h : IsValue e.text ks)
    (context : Order) : IsValue (e.within context).text ks := by
  rw [within]
  split
  · have ho := h.isTold.opened (b := .round) (l := "(") (r := ")") (by decide) (by decide)
    rw [show scripted ")" = [] by decide, List.append_nil] at ho
    exact ho
  · exact h

namespace Generator

/-- The texts of values are values with the given marks. -/
structure Marks (g : Generator ρ) (value : ρ → List Mark) : Prop where
  expression {r : ρ} {c c' : Context ρ} {e : Expression} : g.expression r c = .ok e c' →
    IsValue e.text (value r)

variable {g : Generator ρ} {value : ρ → List Mark} {b : Block ρ} {c c' : Context ρ}

theorem Marks.shown (h : g.Marks value) {socket default : String} {context : Order}
    {q : Option (Passage ρ Expression)} (hd : isScriptValue default.toList = true)
    (hq : q.map (·.ref) = b.value? socket) (hr : ∀ p ∈ q, p.Runs g.expression) :
    IsValue (Passage.shown context default q) (slotMarks value b socket default) := by
  rw [slotMarks, ← hq]
  cases q with
  | none => exact isValue_of_script hd
  | some p => exact Expression.isValue_within (h.expression (hr p rfl)) context

theorem Marks.slot (h : g.Marks value) {socket default : String} {context : Order}
    {e : Expression} (hd : isScriptValue default.toList = true)
    (hv : g.value (b.value? socket) context default c = .ok e c') :
    IsValue e.text (slotMarks value b socket default) := by
  obtain ⟨q, hq, -, hr, he⟩ := value_eq_ok hv
  rw [he]
  exact h.shown hd hq hr

theorem Marks.expand (h : g.Marks value) {parts : List Part} {s : String}
    (hd : ∀ part ∈ parts, part.isScript = true) (he : g.expand b parts c = .ok s c') :
    ∃ texts, s = String.join texts ∧ List.Forall₂ (Part.Shows (slotMarks value b)) parts texts := by
  induction parts generalizing c s with
  | nil =>
    cases he
    exact ⟨[], rfl, .nil⟩
  | cons part parts ih =>
    obtain ⟨hp, hds⟩ := List.forall_mem_cons.1 hd
    cases part with
    | fail f => cases he
    | text t =>
      obtain ⟨rest, c₁, hr, he⟩ := Compile.bind_eq_ok.1 he
      cases he
      obtain ⟨texts, rfl, ht⟩ := ih hds hr
      exact ⟨t :: texts, String.join_cons.symm, .cons rfl ht⟩
    | slot socket context default =>
      obtain ⟨e, c₁, hv, he⟩ := Compile.bind_eq_ok.1 he
      obtain ⟨rest, c₂, hr, he⟩ := Compile.bind_eq_ok.1 he
      cases he
      obtain ⟨texts, rfl, ht⟩ := ih hds hr
      exact ⟨e.text :: texts, String.join_cons.symm, .cons (h.slot hp hv) ht⟩

theorem marks_ofDepth (d : Diagram ρ) (n : Nat) : (ofDepth d n).Marks (d.valueMarks n) := by
  induction n with
  | zero =>
    constructor
    intro r c c' e h
    cases h
  | succ n ih =>
    constructor
    intro r c c' e h
    obtain ⟨rule, t, c₁, c₂, hk, ht, he⟩ := expression_eq_ok h
    have hc := ValueRule.composes_of_template hk ht
    obtain ⟨texts, hs, hp⟩ := ih.expand hc.defaults he
    rw [Diagram.valueMarks, hk, hs]
    dsimp only
    rw [ht]
    exact hc.value hp

end Generator

/-- A mark of a value: nothing is returned, and nothing is moved to. -/
def Outline.Mark.isValue : Mark → Bool
  | .script _ | .author _ false => true
  | _ => false

theorem Outline.Mark.not_isExit {k : Mark} (h : k.isValue = true) : k.isExit = false := by
  cases k with
  | script w | author w moved => rfl
  | exit n => cases h

theorem isValue_of_mem_slotMarks {value : ρ → List Mark}
    (h : ∀ r, ∀ k ∈ value r, k.isValue = true) (b : Block ρ) (socket default : String) :
    ∀ k ∈ slotMarks value b socket default, k.isValue = true := by
  rw [slotMarks]
  cases b.value? socket with
  | none =>
    intro k hk
    obtain ⟨w, -, rfl⟩ := List.mem_map.1 hk
    rfl
  | some r => exact h r

theorem ValueRule.isValue_origin (rule : ValueRule) (w : String) :
    (rule.origin w).isValue = true := by
  cases rule <;> rfl

theorem Diagram.isValue_of_mem_valueMarks (d : Diagram ρ) (n : Nat) (r : ρ) :
    ∀ k ∈ d.valueMarks n r, k.isValue = true := by
  induction n generalizing r with
  | zero => simp [valueMarks]
  | succ n ih =>
    rw [valueMarks]
    split
    · simp
    · rename_i rule _
      split
      · simp
      · intro k hk
        obtain ⟨part, -, hk⟩ := List.mem_flatMap.1 hk
        cases part with
        | text s =>
          obtain ⟨w, -, rfl⟩ := List.mem_map.1 hk
          exact rule.isValue_origin w
        | slot socket context default => exact isValue_of_mem_slotMarks ih _ socket default k hk
        | fail f => cases hk

end BlockMachine
