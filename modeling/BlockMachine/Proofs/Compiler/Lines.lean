import BlockMachine.Proofs.Compiler.Demands
import BlockMachine.Proofs.Compiler.Making
import BlockMachine.Proofs.Compiler.Passage
import BlockMachine.Proofs.Compiler.Settled
import BlockMachine.Proofs.Script.Words

namespace BlockMachine

variable {ρ : Type}

def Part.isFlat : Part → Bool
  | .text s => BlockMachine.isFlat s
  | .slot _ _ default => BlockMachine.isFlat default
  | .fail _ => true

/-- Parts whose text does not start with `await`, if that of no slot does. -/
def startsFreely : List Part → Bool
  | [.text s] => startsFree s
  | .text s :: _ => startsFree s && s.toList.any (!Identifier.isWordChar ·)
  | .slot _ _ default :: .text s :: _ =>
    startsFree default && s.toList.head?.any (!Identifier.isWordChar ·)
  | .slot _ _ _ :: .fail _ :: _ => true
  | _ => false

/-- Parts that bring neither a line feed nor an `await` of their own. -/
structure Calm (parts : List Part) : Prop where
  flat : ∀ part ∈ parts, part.isFlat = true
  free : startsFreely parts = true

namespace ValueRule

theorem calm_text {s : String} (hl : isFlat s = true) (hf : startsFree s = true) :
    Calm [.text s] :=
  ⟨List.forall_mem_singleton.2 hl, hf⟩

theorem calm_binary {operator default : String} (ho : isFlat operator = true)
    (hd : isFlat default = true) (hf : startsFree default = true) (order : Order) :
    Calm (binary operator order default).parts := by
  have ht : isFlat (" " ++ operator ++ " ") = true := by
    rw [isFlat_append, isFlat_append, ho]
    rfl
  refine ⟨List.forall_mem_cons.2 ⟨hd, List.forall_mem_cons.2 ⟨ht,
    List.forall_mem_singleton.2 hd⟩⟩, ?_⟩
  rw [binary, startsFreely, hf, String.toList_append, String.toList_append]
  rfl

theorem forall_mem_slots {p : Part → Prop} (hs : ∀ i, p (listSlot i)) (hc : p (.text ", "))
    (is : List Nat) : ∀ part ∈ (is.map listSlot).intersperse (.text ", "), p part := by
  induction is with
  | nil => simp
  | cons i is ih =>
    cases is with
    | nil => exact List.forall_mem_singleton.2 (hs i)
    | cons j is => exact List.forall_mem_cons.2 ⟨hs i, List.forall_mem_cons.2 ⟨hc, ih⟩⟩

theorem isFlat_slots (is : List Nat) :
    ∀ part ∈ (is.map listSlot).intersperse (.text ", "), part.isFlat = true := by
  refine forall_mem_slots (fun i => ?_) (by decide) is
  rw [listSlot, Part.isFlat]
  decide

theorem calm_listTemplate (count : Nat) : Calm (listTemplate count).parts := by
  constructor
  · exact List.forall_mem_append.2 ⟨List.forall_mem_cons.2 ⟨by decide, isFlat_slots _⟩,
      List.forall_mem_singleton.2 (by decide)⟩
  · rw [listTemplate, List.cons_append]
    cases (List.intersperse (.text ", ") ((List.range count).map listSlot)) <;> rfl

theorem calm_call (name : String) :
    Calm [.text (identifier name ++ "(..."), .slot "ARGS" .atomic "[]", .text ")"] := by
  have hl : isFlat (identifier name ++ "(...") = true := by
    rw [isFlat_append, isFlat_identifier]
    decide
  have hf : startsFree (identifier name ++ "(...") = true := by
    rw [startsFree, String.toList_append, firstWord_append_of_head (by decide)]
    exact startsFree_identifier name
  have ha : (identifier name ++ "(...").toList.any (!Identifier.isWordChar ·) = true := by
    rw [String.toList_append, List.any_append, Bool.or_eq_true]
    exact .inr (by decide)
  refine ⟨List.forall_mem_cons.2 ⟨hl, by decide⟩, ?_⟩
  rw [startsFreely, hf, ha]
  · rfl
  · rintro ⟨⟩

variable {b : Block ρ} {rule : ValueRule} {t : Template}

theorem calm_template (hr : ∀ parts order, rule ≠ .inline parts order)
    (h : rule.template b = .ok t) : Calm t.parts := by
  cases makes_of_template h with
  | inline parts order => exact absurd rfl (hr parts order)
  | boolean hw => rcases hw with rfl | rfl <;> exact calm_text (by decide) (by decide)
  | number x => exact calm_text (isFlat_numeral x) (startsFree_numeral x)
  | text | stateName => exact calm_text (isFlat_quoted _) (startsFree_quoted _)
  | binary _ ho hd =>
    have hall : ∀ e ∈ operations, isFlat e.2.1 = true := by decide
    rcases hd with rfl | rfl | rfl <;> exact calm_binary (hall _ ho) (by decide) (by decide) _
  | power => exact ⟨by decide, by decide⟩
  | list count => exact calm_listTemplate count
  | gameConstant name =>
    refine calm_text ?_ ?_
    · rw [isFlat_append, isFlat_identifier]
      decide
    · rw [startsFree, String.toList_append, firstWord_append_of_mem (c := '.')] <;> decide
  | coordinate hn => rcases hn with rfl | rfl <;> exact ⟨by decide, by decide⟩
  | @property name =>
    have ht : isFlat ("[" ++ quoted name ++ "]") = true := by
      rw [isFlat_append, isFlat_append, isFlat_quoted]
      decide
    refine ⟨List.forall_mem_cons.2 ⟨by decide, List.forall_mem_singleton.2 ht⟩, ?_⟩
    rw [startsFreely, String.toList_append, String.toList_append]
    rfl
  | memory =>
    refine calm_text ?_ ?_
    · rw [isFlat_append, isFlat_append, isFlat_quoted]
      decide
    · rw [startsFree, String.toList_append, String.toList_append]
      rfl
  | localVariable name | constant name =>
    exact calm_text (isFlat_identifier name) (startsFree_identifier name)
  | call name => exact calm_call name
  | unnamedCall =>
    exact ⟨List.forall_mem_cons.2 ⟨by decide, List.forall_mem_singleton.2 rfl⟩, rfl⟩

/-- The kinds whose texts span several lines. -/
def spreadKinds : List String := ["get_enemy_distance", "is_turret_aligned"]

def inline? : ValueRule → Option (List Part)
  | .inline parts _ => some parts
  | _ => none

/-- A rule that gives its parts right away starts freely, and only two kinds have line feeds. -/
def IsCalm (kind : String) (rule : ValueRule) : Prop :=
  ∀ parts ∈ rule.inline?, startsFreely parts = true ∧
    (kind ∉ spreadKinds → parts.all Part.isFlat = true)

instance (kind : String) (rule : ValueRule) : Decidable (rule.IsCalm kind) :=
  inferInstanceAs (Decidable (∀ parts ∈ rule.inline?, _))

theorem isCalm_fixed {kind : String} {l : List Char} (hw : (firstWord l != "await".toList) = true)
    (hl : (spreadKinds.contains kind || !l.contains '\n') = true) (order : Order) :
    (fixed (String.ofList l) order).IsCalm kind := by
  rintro _ ⟨⟩
  refine ⟨?_, fun hk => ?_⟩
  · rw [startsFreely, startsFree, String.toList_ofList, hw]
  · rw [Bool.or_eq_true, List.contains_iff_mem] at hl
    rw [List.all_cons, List.all_nil, Bool.and_true, Part.isFlat, isFlat, String.toList_ofList]
    exact hl.resolve_left hk

set_option maxRecDepth 4096 in
theorem isCalm_fixedTable : ∀ e ∈ fixedTable, e.2.IsCalm e.1 := by
  unfold fixedTable enemyDistance turretAligned
  repeat refine List.forall_mem_cons.2 ⟨isCalm_fixed rfl rfl _, ?_⟩
  nofun

theorem isCalm_table : ∀ e ∈ table, e.2.IsCalm e.1 :=
  List.forall_mem_append.2 ⟨isCalm_fixedTable, by decide +kernel⟩

theorem free_of_template (hk : ofKind? b.kind = some rule) (h : rule.template b = .ok t) :
    startsFreely t.parts = true := by
  by_cases hr : ∃ parts order, rule = .inline parts order
  · obtain ⟨parts, order, rfl⟩ := hr
    cases h
    exact (isCalm_table _ (Table.mem_of_get? hk) parts rfl).1
  · exact (calm_template (fun parts order he => hr ⟨parts, order, he⟩) h).free

theorem flat_of_template (hk : ofKind? b.kind = some rule) (hs : b.kind ∉ spreadKinds)
    (h : rule.template b = .ok t) : ∀ part ∈ t.parts, part.isFlat = true := by
  by_cases hr : ∃ parts order, rule = .inline parts order
  · obtain ⟨parts, order, rfl⟩ := hr
    cases h
    exact List.all_eq_true.1 ((isCalm_table _ (Table.mem_of_get? hk) parts rfl).2 hs)
  · exact (calm_template (fun parts order he => hr ⟨parts, order, he⟩) h).flat

set_option maxRecDepth 4096 in
theorem parts_of_spread (hk : ofKind? b.kind = some rule) (hs : b.kind ∈ spreadKinds)
    (h : rule.template b = .ok t) : ∃ s, t.parts = [.text s] ∧ isFlat s = false := by
  rcases List.mem_pair.1 hs with hb | hb
  · rw [hb] at hk
    cases hk
    cases h
    exact ⟨enemyDistance, rfl, isFlat_literal rfl⟩
  · rw [hb] at hk
    cases hk
    cases h
    exact ⟨turretAligned, rfl, isFlat_literal rfl⟩

end ValueRule

/-- A value that reads, at whatever depth, a block whose text spans several lines. -/
inductive Diagram.Spreads (d : Diagram ρ) : ρ → Prop
  | here {r : ρ} : (d.block r).kind ∈ ValueRule.spreadKinds → Spreads d r
  | inside {r u : ρ} {socket : String} : socket ∈ (d.block r).readValues →
    (d.block r).value? socket = some u → Spreads d u → Spreads d r

/-- Some of the sockets hold a value that spans several lines. -/
def Diagram.SpreadsIn (d : Diagram ρ) (b : Block ρ) (sockets : List String) : Prop :=
  ∃ socket ∈ sockets, ∃ u, b.value? socket = some u ∧ d.Spreads u

theorem Diagram.spreads_iff {d : Diagram ρ} {r : ρ}
    (h : (d.block r).kind ∉ ValueRule.spreadKinds) :
    d.Spreads r ↔ d.SpreadsIn (d.block r) (d.block r).readValues := by
  constructor
  · intro hs
    cases hs with
    | here hk => exact absurd hk h
    | inside hm hv hu => exact ⟨_, hm, _, hv, hu⟩
  · rintro ⟨socket, hm, u, hv, hu⟩
    exact .inside hm hv hu

namespace Expression

variable (e : Expression) (context : Order)

theorem isFlat_within : isFlat (e.within context).text = isFlat e.text := by
  rw [within]
  split
  · have hp : isFlat "(" = true := by decide
    have hq : isFlat ")" = true := by decide
    rw [isFlat_append, isFlat_append, hp, hq, Bool.true_and, Bool.and_true]
  · rfl

variable {e} in
theorem startsFree_within (h : startsFree e.text = true) :
    startsFree (e.within context).text = true := by
  rw [within]
  split
  · rw [startsFree, String.toList_append, String.toList_append]
    rfl
  · exact h

end Expression

/-- A way of compiling single blocks that has line feeds only in the texts of spread values. -/
structure Generator.Lined (g : Generator ρ) : Prop where
  flat {r : ρ} {c c' : Context ρ} {e : Expression} : g.expression r c = .ok e c' →
    (isFlat e.text = false ↔ g.diagram.Spreads r)
  free {r : ρ} {c c' : Context ρ} {e : Expression} : g.expression r c = .ok e c' →
    startsFree e.text = true

namespace Generator.Lined

variable {g : Generator ρ} (h : g.Lined) {b : Block ρ} {parts : List Part} {c c' : Context ρ}
  {child : Option ρ} {context : Order} {default : String} {e : Expression} {s : String}

include h

theorem flat_value (hd : isFlat default = true) (hv : g.value child context default c = .ok e c') :
    isFlat e.text = false ↔ ∃ u, child = some u ∧ g.diagram.Spreads u := by
  cases child with
  | none =>
    cases hv
    rw [hd]
    exact ⟨nofun, fun ⟨_, hu, _⟩ => nomatch hu⟩
  | some u =>
    obtain ⟨e', c₁, he, hv⟩ := Compile.bind_eq_ok.1 hv
    cases hv
    rw [Expression.isFlat_within, h.flat he]
    constructor
    · intro hs
      exact ⟨u, rfl, hs⟩
    · rintro ⟨_, ⟨⟩, hs⟩
      exact hs

theorem free_value (hd : startsFree default = true)
    (hv : g.value child context default c = .ok e c') : startsFree e.text = true := by
  cases child with
  | none =>
    cases hv
    exact hd
  | some u =>
    obtain ⟨e', c₁, he, hv⟩ := Compile.bind_eq_ok.1 hv
    cases hv
    exact Expression.startsFree_within context (h.free he)

theorem flat_expand (hp : ∀ part ∈ parts, part.isFlat = true)
    (he : g.expand b parts c = .ok s c') :
    isFlat s = false ↔ g.diagram.SpreadsIn b (slots parts) := by
  induction parts generalizing s c with
  | nil =>
    cases he
    exact ⟨nofun, fun ⟨_, hm, _⟩ => nomatch hm⟩
  | cons part parts ih =>
    obtain ⟨hpart, hparts⟩ := List.forall_mem_cons.1 hp
    cases part with
    | text t =>
      obtain ⟨s', c₁, hs, he⟩ := Compile.bind_eq_ok.1 he
      cases he
      have ht : isFlat t = true := hpart
      rw [isFlat_append, ht, Bool.true_and, ih hparts hs]
      rfl
    | slot socket context default =>
      obtain ⟨e, c₁, hv, he⟩ := Compile.bind_eq_ok.1 he
      obtain ⟨s', c₂, hs, he⟩ := Compile.bind_eq_ok.1 he
      cases he
      have hd : isFlat default = true := hpart
      have hslots : slots (.slot socket context default :: parts) = socket :: slots parts := rfl
      rw [isFlat_append, Bool.and_eq_false_iff, h.flat_value hd hv, ih hparts hs, hslots]
      simp only [Diagram.SpreadsIn, List.mem_cons, exists_eq_or_imp]
    | fail f => cases he

theorem free_expand (hp : startsFreely parts = true) (he : g.expand b parts c = .ok s c') :
    startsFree s = true := by
  revert hp
  fun_cases startsFreely parts with
  | case1 t =>
    intro ht
    cases he
    rw [String.append_empty]
    exact ht
  | case2 t rest =>
    intro hp
    obtain ⟨ht, ha⟩ := Bool.and_eq_true_iff.1 hp
    obtain ⟨d, hd, hw⟩ := List.any_eq_true.1 ha
    obtain ⟨s', c₁, hs, he⟩ := Compile.bind_eq_ok.1 he
    cases he
    rw [startsFree, String.toList_append, firstWord_append_of_mem hd (by simpa using hw)]
    exact ht
  | case3 socket context default t rest =>
    intro hp
    obtain ⟨hd, ha⟩ := Bool.and_eq_true_iff.1 hp
    obtain ⟨e, c₁, hv, he⟩ := Compile.bind_eq_ok.1 he
    obtain ⟨_, c₂, hs, he⟩ := Compile.bind_eq_ok.1 he
    cases he
    obtain ⟨s', c₃, hs, he⟩ := Compile.bind_eq_ok.1 hs
    cases he
    have hh : (t ++ s').toList.head?.all (!Identifier.isWordChar ·) = true := by
      rw [String.toList_append]
      cases ht : t.toList with
      | nil =>
        rw [ht] at ha
        cases ha
      | cons d ds =>
        rw [ht] at ha
        exact ha
    rw [startsFree, String.toList_append, firstWord_append_of_head hh]
    exact h.free_value hd hv
  | case4 =>
    obtain ⟨_, _, -, he⟩ := Compile.bind_eq_ok.1 he
    obtain ⟨_, _, hs, -⟩ := Compile.bind_eq_ok.1 he
    cases hs
  | case5 => rintro ⟨⟩

end Generator.Lined

theorem Generator.lined_ofDepth (d : Diagram ρ) (n : Nat) : (ofDepth d n).Lined := by
  induction n with
  | zero => exact ⟨nofun, nofun⟩
  | succ n ih =>
    have hd : (ofDepth d n).diagram = d := diagram_ofDepth d n
    constructor
    · intro r c c' e he
      obtain ⟨rule, t, c₁, c₂, hk, ht, he⟩ := expression_eq_ok he
      by_cases hs : (d.block r).kind ∈ ValueRule.spreadKinds
      · obtain ⟨s, hp, hf⟩ := ValueRule.parts_of_spread hk hs ht
        rw [hp] at he
        generalize e.text = text at he ⊢
        cases he
        rw [String.append_empty, hf]
        exact iff_of_true rfl (.here hs)
      · have hf := ih.flat_expand (ValueRule.flat_of_template hk hs ht) he
        rw [hd, (ValueRule.template_renders hk ht).sockets, ← Diagram.spreads_iff hs] at hf
        exact hf
    · intro r c c' e he
      obtain ⟨rule, t, c₁, c₂, hk, ht, he⟩ := expression_eq_ok he
      exact ih.free_expand (ValueRule.free_of_template hk ht) he
end BlockMachine
