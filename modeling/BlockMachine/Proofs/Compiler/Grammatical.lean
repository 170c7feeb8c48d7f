import BlockMachine.Proofs.Compiler.Arithmetic
import BlockMachine.Proofs.Compiler.Making
import BlockMachine.Proofs.Compiler.Unfolding
import BlockMachine.Proofs.Script.Phrasing

namespace BlockMachine

open Lexer

namespace Tree

/-- A whole number that is written without a sign. -/
def isWhole (t : Tree) : Bool :=
  t.block.kind == "math_number" &&
    match ValueRule.numberOf t.block with
    | .ok x => !x.isNegative && x.toInt?.isSome
    | .error _ => false

def dotsNumber (t : Tree) : Bool :=
  t.block.kind == "position_get_coordinate" && (t.block.value? "POSITION").any isWhole

/-- Somewhere in the tree a coordinate is taken of a whole number. -/
def Misread (t : Tree) : Prop :=
  ∃ q, (⟨.value, t⟩ : Position).Reaches q ∧ q.tree.dotsNumber = true

/-- The same in a socket. -/
def MisreadAt (t : Tree) (socket : String) : Prop :=
  ∃ u, t.block.value? socket = some u ∧ u.Misread

/-- Whether a whole number stands in a socket, or `default` if it is empty. -/
def wholeAt (t : Tree) (socket : String) (default : Bool) : Bool :=
  (t.block.value? socket).elim default isWhole

variable {t : Tree}

theorem mem_reads_iff {rule : ValueRule} {template : Template} {q : Position}
    (hk : ValueRule.ofKind? t.block.kind = some rule) (hr : rule.template t.block = .ok template) :
    q ∈ (⟨.value, t⟩ : Position).reads ↔
      ∃ socket ∈ slots template.parts, ∃ u, t.block.value? socket = some u ∧ q = ⟨.value, u⟩ := by
  rw [← Position.mem_parts, Position.parts_of_template hk hr, List.mem_flatMap]
  simp only [inSocket, List.mem_map, Option.mem_toList, eq_comm]

theorem misread_iff {rule : ValueRule} {template : Template}
    (hk : ValueRule.ofKind? t.block.kind = some rule) (hr : rule.template t.block = .ok template) :
    t.Misread ↔ t.dotsNumber = true ∨ ∃ socket ∈ slots template.parts, t.MisreadAt socket := by
  constructor
  · rintro ⟨q, hq, hd⟩
    rcases Relation.ReflTransGen.cases_head hq with rfl | ⟨r, hm, hq⟩
    · exact .inl hd
    · obtain ⟨socket, hs, u, hu, rfl⟩ := (mem_reads_iff hk hr).1 hm
      exact .inr ⟨socket, hs, u, hu, q, hq, hd⟩
  · rintro (hd | ⟨socket, hs, u, hu, q, hq, hd⟩)
    · exact ⟨_, .refl, hd⟩
    · exact ⟨q, .head ((mem_reads_iff hk hr).2 ⟨socket, hs, u, hu, rfl⟩) hq, hd⟩

end Tree

theorem Expression.needsParens_within (e : Expression) (context : Order) :
    (e.within context).order.needsParens context = false := by
  rw [within]
  split
  · exact Order.needsParens_atomic context
  · rename_i hn
    exact Bool.eq_false_iff.2 hn

/-- Everything in the sockets of a tree is legible. -/
def Tree.Inner (t : Tree) : Prop :=
  ∀ socket u e, t.block.value? socket = some u → u.expression = .ok e →
    Legible u.Misread u.isWhole e

namespace Tree

variable {t : Tree} {parts : List Part} {socket text default : String} {context : Order}
  {e : Expression} {w : Bool}

theorem Inner.valueAt (hi : t.Inner) (hd : Legible False w ⟨default, .atomic⟩)
    (h : t.valueAt socket context default = .ok e) :
    Legible (t.MisreadAt socket) (t.wholeAt socket w) e ∧
      e.order.needsParens context = false := by
  rw [Tree.valueAt] at h
  rw [wholeAt]
  cases hv : t.block.value? socket with
  | none =>
    rw [hv] at h
    cases h
    refine ⟨hd.congr ⟨False.elim, ?_⟩, Order.needsParens_atomic context⟩
    rintro ⟨u, hu, -⟩
    rw [hv] at hu
    cases hu
  | some u =>
    rw [hv] at h
    obtain ⟨x, hx, h⟩ := bind_eq_ok.1 h
    cases h
    refine ⟨((hi socket u x hv hx).within context).congr ?_, x.needsParens_within context⟩
    constructor
    · exact fun hm => ⟨u, hv, hm⟩
    · rintro ⟨v, hv', hm⟩
      rw [hv] at hv'
      cases hv'
      exact hm

theorem Inner.slot (hi : t.Inner) (hd : Legible False w ⟨default, .atomic⟩)
    (h : t.expanded (.slot socket context default :: parts) = .ok text) :
    ∃ e rest, Legible (t.MisreadAt socket) (t.wholeAt socket w) e ∧
      e.order.needsParens context = false ∧ t.expanded parts = .ok rest ∧
      text = e.text ++ rest := by
  obtain ⟨e, rest, he, hr, rfl⟩ := expanded_slot h
  obtain ⟨hl, hn⟩ := hi.valueAt hd he
  exact ⟨e, rest, hl, hn, hr, rfl⟩

end Tree

section Texts

theorem legible_literal {w : String} (h : w = "null" ∨ w = "true" ∨ w = "false") :
    Legible False false ⟨w, .atomic⟩ := by
  rcases h with rfl | rfl | rfl <;> exact .word (by decide) (.literal (by decide))

theorem legible_zero : Legible False true ⟨"0", .atomic⟩ := .digits 0

theorem legible_emptyArray : Legible False false ⟨"[]", .atomic⟩ := by
  have hr : run .ready "[]".toList = some ([.mark ['[']], .mark [']']) := rfl
  exact .of_run hr rfl rfl (@Phrase.array [] nofun nofun) (Nat.le_refl _) (by decide) fun _ => rfl

theorem legible_emptyObject : Legible False false ⟨"\x7b\x7d", .atomic⟩ := by
  have hr : run .ready "\x7b\x7d".toList = some ([.mark ['\x7b']], .mark ['\x7d']) := rfl
  exact .of_run hr rfl rfl (@Phrase.object [] nofun nofun) (Nat.le_refl _) (by decide) fun _ => rfl

theorem legible_origin : Legible False false ⟨"\x7b x: 0, y: 0 \x7d", .atomic⟩ :=
  (legible_zero.pair legible_zero).congr (iff_of_eq (or_self False))

theorem legible_api {name : String} (h : Identifier.Spelled name.toList) :
    Legible False false ⟨"api" ++ ("." ++ name), .member⟩ :=
  .path (by decide) (by decide) h

theorem legible_memory : Legible False false ⟨"(api.getMemory() || \x7b\x7d)", .atomic⟩ := by
  have hs : Identifier.Spelled "getMemory".toList := by decide
  have hm : ("||".toList, Order.logicalOr) ∈ operators := by decide
  have hc := (legible_api hs).call (by decide)
  have hb := hc.binary legible_emptyObject hm rfl rfl
  exact hb.parens.congr (iff_of_eq (or_self False))

theorem legible_mover : Legible False false
    ⟨"((pos) => pos ? (api.moveTo(pos.x, pos.y) !== null) : false)", .atomic⟩ := by
  have hpos : Phrase [.word "pos".toList] .atomic := .word (by decide)
  have hx := Phrase.member ['x'] hpos (by decide)
  have hy := Phrase.member ['y'] hpos (by decide)
  have hf : Phrase [.word "api".toList, .mark ['.'], .word "moveTo".toList] .member :=
    .member _ (.word (by decide)) (by decide)
  have hcall := @Phrase.call _ _ [⟨[], _, _⟩, ⟨[], _, _⟩] hf (by decide)
    (List.forall_mem_cons.2 ⟨hx, List.forall_mem_singleton.2 hy⟩)
    (List.forall_mem_cons.2 ⟨⟨.inl rfl, by decide⟩,
      List.forall_mem_singleton.2 ⟨.inl rfl, by decide⟩⟩)
  have hnull : Phrase [.word "null".toList] .atomic := .literal (by decide)
  have hfalse : Phrase [.word "false".toList] .atomic := .literal (by decide)
  have htest : (['!', '=', '='], Order.equality) ∈ operators := by decide
  have hmoved := (Phrase.binary htest hcall (by decide) hnull (by decide)).parens
  have hbody := Phrase.choice hpos (by decide) hmoved (by decide) hfalse (by decide)
  have hfun := (Phrase.arrow (x := "pos".toList) (by decide) hbody (by decide) nofun).parens
  refine @Legible.of_run (.mark ['('] :: _) (.mark [')']) _ _ _ ?_ rfl rfl hfun (Nat.le_refl _)
    (by decide) fun _ => rfl
  decide +kernel

/-- Characters that can stand by themselves as an expression of the order. -/
def standsAlone (cs : List Char) (order : Order) : Bool :=
  match run .ready cs with
  | some (_, s) =>
    cs.head?.any isStarter && s.isClosed && order.tenths ≤ Order.assignment.tenths &&
      (s.takesDot || Order.functionCall.tenths < order.tenths)
  | none => false

set_option maxRecDepth 4000 in
theorem standsAlone_fixed : ∀ e ∈ ValueRule.fixedTable, ∃ text order cs,
    e.2 = ValueRule.fixed text order ∧ text.toList = cs ∧ standsAlone cs order = true := by
  -- The characters of a long text are found by unification; to decode the text would be slow.
  repeat
    refine List.forall_mem_cons.2 ⟨⟨_, _, _, rfl, String.toList_ofList, by decide +kernel⟩, ?_⟩
  exact nofun

theorem legible_fixed {kind : String} {rule : ValueRule} (h : (kind, rule) ∈ ValueRule.fixedTable) :
    ∃ text order, rule = ValueRule.fixed text order ∧ Legible False false ⟨text, order⟩ := by
  obtain ⟨text, order, cs, he, hx, hs⟩ := standsAlone_fixed _ h
  cases he
  subst hx
  rw [standsAlone] at hs
  cases hr : run .ready text.toList with
  | none =>
    rw [hr] at hs
    cases hs
  | some r =>
    obtain ⟨ts, s⟩ := r
    rw [hr] at hs
    simp only [Bool.and_eq_true, Bool.or_eq_true, decide_eq_true_eq] at hs
    obtain ⟨⟨⟨hs, hc⟩, ho⟩, hd⟩ := hs
    have hl : lex text = some (ts ++ s.pending) := by
      rw [lex, hr]
      exact if_pos (State.isComplete_of_isClosed hc)
    refine ⟨text, order, rfl, .of_run hr hs hc (.given h hl) (Nat.le_refl _) ho ?_⟩
    intro hle
    exact hd.resolve_right (Nat.not_lt.2 hle)

end Texts

namespace Tree

variable {t : Tree} {text default : String} {p : Order} {w : Bool}

theorem Inner.binary {m : String} (hi : t.Inner) (hm : (m.toList, p) ∈ operators)
    (hd : Legible False w ⟨default, .atomic⟩)
    (h : t.expanded (ValueRule.binary m p default).parts = .ok text) :
    Legible (t.MisreadAt "A" ∨ t.MisreadAt "B") false ⟨text, p⟩ := by
  obtain ⟨a, _, ha, hl, h₁, rfl⟩ := hi.slot hd h
  obtain ⟨_, h₂, rfl⟩ := expanded_text h₁
  obtain ⟨b, _, hb, hr, h₃, rfl⟩ := hi.slot hd h₂
  cases h₃
  rw [String.append_empty]
  exact ha.binary hb hm hl hr

theorem Inner.power (hi : t.Inner) (h : t.expanded ValueRule.powerTemplate.parts = .ok text) :
    Legible (t.MisreadAt "A" ∨ t.MisreadAt "B") false ⟨text, .functionCall⟩ := by
  obtain ⟨_, h₁, rfl⟩ := expanded_text h
  obtain ⟨a, _, ha, -, h₂, rfl⟩ := hi.slot legible_zero h₁
  obtain ⟨_, h₃, rfl⟩ := expanded_text h₂
  obtain ⟨b, _, hb, -, h₄, rfl⟩ := hi.slot legible_zero h₃
  cases h₄
  obtain ⟨items, hn, hl⟩ := hb.listed
  obtain ⟨items, -, hl⟩ := ha.listed_cons hn hl
  have hf : Legible False false ⟨"Math" ++ ("." ++ "pow"), .member⟩ :=
    .path (by decide) (by decide) (by decide)
  rw [String.append_empty]
  have hh : "Math.pow(" = "Math" ++ ("." ++ "pow") ++ "(" := rfl
  have hc := hl.call hf (by decide) hh
  rw [String.append_assoc, String.append_assoc] at hc
  exact hc

theorem Inner.negation (hi : t.Inner)
    (h : t.expanded [.text "!", .slot "BOOL" .logicalNot "true"] = .ok text) :
    Legible (t.MisreadAt "BOOL") false ⟨text, .logicalNot⟩ := by
  obtain ⟨_, h₁, rfl⟩ := expanded_text h
  obtain ⟨e, _, he, hn, h₂, rfl⟩ := hi.slot (legible_literal (.inr (.inl rfl))) h₁
  cases h₂
  rw [String.append_empty]
  exact he.negation hn

theorem Inner.conditional (hi : t.Inner)
    (h : t.expanded [.slot "IF" .conditional "false", .text " ? ",
      .slot "THEN" .conditional "null", .text " : ", .slot "ELSE" .conditional "null"] =
        .ok text) :
    Legible (t.MisreadAt "IF" ∨ t.MisreadAt "THEN" ∨ t.MisreadAt "ELSE") false
      ⟨text, .conditional⟩ := by
  obtain ⟨c, _, hc, hn, h₁, rfl⟩ := hi.slot (legible_literal (.inr (.inr rfl))) h
  obtain ⟨_, h₂, rfl⟩ := expanded_text h₁
  obtain ⟨a, _, ha, -, h₃, rfl⟩ := hi.slot (legible_literal (.inl rfl)) h₂
  obtain ⟨_, h₄, rfl⟩ := expanded_text h₃
  obtain ⟨b, _, hb, -, h₅, rfl⟩ := hi.slot (legible_literal (.inl rfl)) h₄
  cases h₅
  rw [String.append_empty]
  exact hc.choice ha hb hn

theorem Inner.position (hi : t.Inner)
    (h : t.expanded [.text "\x7b x: ", .slot "X" .none "0", .text ", y: ", .slot "Y" .none "0",
      .text " \x7d"] = .ok text) :
    Legible (t.MisreadAt "X" ∨ t.MisreadAt "Y") false ⟨text, .atomic⟩ := by
  obtain ⟨_, h₁, rfl⟩ := expanded_text h
  obtain ⟨a, _, ha, -, h₂, rfl⟩ := hi.slot legible_zero h₁
  obtain ⟨_, h₃, rfl⟩ := expanded_text h₂
  obtain ⟨b, _, hb, -, h₄, rfl⟩ := hi.slot legible_zero h₃
  cases h₄
  rw [String.append_empty]
  exact ha.pair hb

theorem Inner.query {function : String} (hi : t.Inner) (hf : Legible False w ⟨function, p⟩)
    (hp : p.tenths ≤ Order.functionCall.tenths) {head : String} (hh : head = function ++ "(")
    {context : Order} (h : t.expanded [.text head, .slot "POSITION" context "null", .text ")"] =
      .ok text) :
    Legible (t.MisreadAt "POSITION") false ⟨text, .functionCall⟩ := by
  obtain ⟨_, h₁, rfl⟩ := expanded_text h
  obtain ⟨e, _, he, -, h₂, rfl⟩ := hi.slot (legible_literal (.inl rfl)) h₁
  cases h₂
  obtain ⟨items, -, hl⟩ := he.listed
  exact hl.call hf hp hh

theorem Inner.orbit (hi : t.Inner)
    (h : t.expanded [.text "api.getOrbitingPosition(", .slot "TARGET_POINT" .atomic "null",
      .text ", ", .slot "DISTANCE" .atomic "150", .text ", ",
      .slot "DIRECTION" .atomic "\"random\"", .text ")"] = .ok text) :
    Legible (t.MisreadAt "TARGET_POINT" ∨ t.MisreadAt "DISTANCE" ∨ t.MisreadAt "DIRECTION") false
      ⟨text, .functionCall⟩ := by
  obtain ⟨_, h₁, rfl⟩ := expanded_text h
  obtain ⟨a, _, ha, -, h₂, rfl⟩ := hi.slot (legible_literal (.inl rfl)) h₁
  obtain ⟨_, h₃, rfl⟩ := expanded_text h₂
  obtain ⟨b, _, hb, -, h₄, rfl⟩ := hi.slot (.digits 150) h₃
  obtain ⟨_, h₅, rfl⟩ := expanded_text h₄
  obtain ⟨c, _, hc, -, h₆, rfl⟩ := hi.slot (.string "random") h₅
  cases h₆
  obtain ⟨items, hn, hl⟩ := hc.listed
  obtain ⟨items, hn, hl⟩ := hb.listed_cons hn hl
  obtain ⟨items, -, hl⟩ := ha.listed_cons hn hl
  have hh : "api.getOrbitingPosition(" = "api" ++ ("." ++ "getOrbitingPosition") ++ "(" := rfl
  have hx := hl.call (legible_api (by decide)) (by decide) hh
  simp only [String.append_assoc] at hx
  exact hx

theorem Inner.call (hi : t.Inner) (name : String)
    (h : t.expanded [.text (identifier name ++ "(..."), .slot "ARGS" .atomic "[]", .text ")"] =
      .ok text) :
    Legible (t.MisreadAt "ARGS") false ⟨text, .functionCall⟩ := by
  obtain ⟨_, h₁, rfl⟩ := expanded_text h
  obtain ⟨e, _, he, -, h₂, rfl⟩ := hi.slot legible_emptyArray h₁
  cases h₂
  obtain ⟨items, hl⟩ := he.listed_spread
  have hx := hl.call (.identifier name) (Nat.zero_le _) rfl
  have hs : "(..." = "(" ++ "..." := rfl
  rw [hs]
  simp only [String.append_assoc] at hx ⊢
  exact hx

theorem Inner.coordinate {name : String} (hi : t.Inner) (hm : name = "x" ∨ name = "y")
    (h : t.expanded [.slot "POSITION" .member "\x7b x: 0, y: 0 \x7d", .text ("." ++ name)] =
      .ok text) :
    Legible (t.MisreadAt "POSITION" ∨ t.wholeAt "POSITION" false = true) false
      ⟨text, .member⟩ := by
  obtain ⟨e, _, he, hn, h₁, rfl⟩ := hi.slot legible_origin h
  obtain ⟨_, h₂, rfl⟩ := expanded_text h₁
  cases h₂
  rw [String.append_empty]
  exact he.coordinate hn hm

theorem Inner.property {name : String} (hi : t.Inner)
    (h : t.expanded [.slot "OBJECT" .member "\x7b\x7d", .text ("[" ++ quoted name ++ "]")] =
      .ok text) :
    Legible (t.MisreadAt "OBJECT") false ⟨text, .member⟩ := by
  obtain ⟨e, _, he, hn, h₁, rfl⟩ := hi.slot legible_emptyObject h
  obtain ⟨_, h₂, rfl⟩ := expanded_text h₁
  cases h₂
  rw [String.append_empty]
  exact (he.index hn (.string name)).congr (iff_of_eq (or_false _))

theorem Inner.listed {is : List Nat} (hi : t.Inner) (hn : is ≠ []) {rest : List Part}
    (h : t.expanded ((is.map ValueRule.listSlot).intersperse (.text ", ") ++ rest) = .ok text) :
    ∃ inner tail items, items ≠ [] ∧
      Listed (∃ i ∈ is, t.MisreadAt ("ADD" ++ decimalText (i : Nat))) inner items ∧
      t.expanded rest = .ok tail ∧ text = inner ++ tail := by
  induction is generalizing text with
  | nil => exact absurd rfl hn
  | cons i is ih =>
    rw [List.exists_mem_cons_iff]
    cases is with
    | nil =>
      obtain ⟨e, tail, he, -, hr, rfl⟩ := hi.slot (legible_literal (.inl rfl)) h
      obtain ⟨items, hne, hl⟩ := he.listed
      exact ⟨e.text, tail, items, hne, hl.congr (by simp), hr, rfl⟩
    | cons j is =>
      obtain ⟨e, _, he, -, h₁, rfl⟩ := hi.slot (legible_literal (.inl rfl)) h
      obtain ⟨_, h₂, rfl⟩ := expanded_text h₁
      obtain ⟨inner, tail, items, hne, hl, hr, rfl⟩ := ih (List.cons_ne_nil j is) h₂
      obtain ⟨items, hne, hl⟩ := he.listed_cons hne hl
      refine ⟨e.text ++ (", " ++ inner), tail, items, hne, hl, hr, ?_⟩
      rw [String.append_assoc, String.append_assoc]

theorem Inner.list {count : Nat} (hi : t.Inner)
    (h : t.expanded (ValueRule.listTemplate count).parts = .ok text) :
    Legible (∃ i ∈ List.range count, t.MisreadAt ("ADD" ++ decimalText (i : Nat))) false
      ⟨text, .atomic⟩ := by
  obtain ⟨_, h₁, rfl⟩ := expanded_text h
  by_cases hn : List.range count = []
  · rw [hn] at h₁ ⊢
    cases h₁
    exact legible_emptyArray.congr (by simp)
  · obtain ⟨inner, _, items, -, hl, h₂, rfl⟩ := hi.listed hn h₁
    cases h₂
    exact hl.array

theorem Inner.inline {parts : List Part} (hi : t.Inner)
    (hk : ValueRule.ofKind? t.block.kind = some (.inline parts p))
    (h : t.expanded parts = .ok text) :
    Legible (∃ socket ∈ slots parts, t.MisreadAt socket) false ⟨text, p⟩ := by
  have hm := Table.mem_of_get? hk
  rcases List.mem_append.1 hm with hm | hm
  · obtain ⟨script, order, he, hl⟩ := legible_fixed hm
    cases he
    rw [expanded_atom h]
    exact hl.congr (by simp [slots, Part.socket?])
  · simp only [List.mem_cons, Prod.mk.injEq, List.not_mem_nil, or_false, reduceCtorEq,
      and_false, false_or] at hm
    have hs {f : String} {context : Order} : (∃ socket ∈ slots [.text f,
        .slot "POSITION" context "null", .text ")"], t.MisreadAt socket) ↔
        t.MisreadAt "POSITION" := by
      simp [slots, Part.socket?]
    rcases hm with ⟨-, he⟩ | ⟨-, he⟩ | ⟨-, he⟩ | ⟨-, he⟩ | ⟨-, he⟩ | ⟨-, he⟩ | ⟨-, he⟩
    all_goals obtain ⟨rfl, rfl⟩ := ValueRule.inline.inj he
    · exact (hi.negation h).congr (by simp [slots, Part.socket?])
    · exact (hi.conditional h).congr (by simp [slots, Part.socket?])
    · exact (hi.position h).congr (by simp [slots, Part.socket?])
    · have hh : "api.isPositionValid" ++ "(" = "api" ++ ("." ++ "isPositionValid") ++ "(" := rfl
      exact (hi.query (legible_api (by decide)) (by decide) hh h).congr hs.symm
    · have hh : "api.isLineOfSightClear" ++ "(" = "api" ++ ("." ++ "isLineOfSightClear") ++ "(" :=
        rfl
      exact (hi.query (legible_api (by decide)) (by decide) hh h).congr hs.symm
    · exact (hi.orbit h).congr (by simp [slots, Part.socket?])
    · exact (hi.query legible_mover (by decide) rfl h).congr hs.symm

theorem legible_default {default : String}
    (h : default = "0" ∨ default = "true" ∨ default = "false") :
    ∃ w, Legible False w ⟨default, .atomic⟩ := by
  rcases h with rfl | rfl | rfl
  · exact ⟨_, legible_zero⟩
  · exact ⟨false, legible_literal (.inr (.inl rfl))⟩
  · exact ⟨false, legible_literal (.inr (.inr rfl))⟩

theorem mem_operators : ∀ e ∈ ValueRule.operations, (e.2.1.toList, e.2.2) ∈ operators := by
  decide +kernel

theorem Inner.template {rule : ValueRule} {template : Template} (hi : t.Inner)
    (hk : ValueRule.ofKind? t.block.kind = some rule) (hr : rule.template t.block = .ok template)
    (hn : rule ≠ .number) (hc : rule ≠ .coordinate)
    (h : t.expanded template.parts = .ok text) :
    Legible (∃ socket ∈ slots template.parts, t.MisreadAt socket) false ⟨text, template.order⟩ := by
  have hs : (∃ socket ∈ ([] : List String), t.MisreadAt socket) ↔ False := by simp
  have hab : (∃ socket ∈ ["A", "B"], t.MisreadAt socket) ↔
      t.MisreadAt "A" ∨ t.MisreadAt "B" := by simp
  cases ValueRule.makes_of_template hr with
  | number => exact absurd rfl hn
  | coordinate => exact absurd rfl hc
  | inline parts order => exact hi.inline hk h
  | boolean hw =>
    rw [expanded_atom h]
    exact (legible_literal (.inr hw)).congr hs.symm
  | text | stateName =>
    rw [expanded_atom h]
    exact (Legible.string _).congr hs.symm
  | binary _ ho hd =>
    obtain ⟨w, hd⟩ := legible_default hd
    exact (hi.binary (mem_operators _ ho) hd h).congr hab.symm
  | power => exact (hi.power h).congr hab.symm
  | list count =>
    apply (hi.list h).congr
    rw [ValueRule.slots_listTemplate]
    simp
  | gameConstant name =>
    rw [expanded_atom h]
    have hf : Legible False false ⟨"context" ++ ("." ++ "constants"), .member⟩ :=
      .path (by decide) (by decide) (by decide)
    have hx := hf.member rfl (Identifier.valid_identifier name).toSpelled
    rw [← String.append_assoc] at hx
    exact hx.congr hs.symm
  | property => exact (hi.property h).congr (by simp [slots, Part.socket?])
  | @memory key =>
    rw [expanded_atom h]
    have hx := legible_memory.index rfl (.string key)
    rw [or_false, ← String.append_assoc, ← String.append_assoc] at hx
    exact hx.congr hs.symm
  | localVariable name | constant name =>
    rw [expanded_atom h]
    exact (Legible.identifier name).congr hs.symm
  | call name => exact (hi.call name h).congr (by simp [slots, Part.socket?])
  | unnamedCall =>
    obtain ⟨_, _, -, hf, -⟩ := expanded_slot h
    cases hf

theorem isWhole_eq_false (hk : t.block.kind ≠ "math_number") : t.isWhole = false := by
  rw [isWhole, beq_false_of_ne hk, Bool.false_and]

theorem dotsNumber_eq_false (hk : t.block.kind ≠ "position_get_coordinate") :
    t.dotsNumber = false := by
  rw [dotsNumber, beq_false_of_ne hk, Bool.false_and]

theorem dotsNumber_eq (hk : t.block.kind = "position_get_coordinate") :
    t.dotsNumber = t.wholeAt "POSITION" false := by
  rw [dotsNumber, hk, wholeAt]
  cases t.block.value? "POSITION" <;> rfl

theorem legible_number {template : Template} (hk : ValueRule.ofKind? t.block.kind = some .number)
    (hr : ValueRule.number.template t.block = .ok template)
    (h : t.expanded template.parts = .ok text) :
    Legible t.Misread t.isWhole ⟨text, template.order⟩ := by
  have hkind := (ValueRule.suits_ofKind? hk).checked "math_number" rfl
  have hm := misread_iff hk hr
  obtain ⟨x, hx, rfl⟩ := map_eq_ok.1 hr
  have hd : t.dotsNumber = false := by
    apply dotsNumber_eq_false
    rw [hkind]
    decide
  have hw : t.isWhole = (!x.isNegative && x.toInt?.isSome) := by
    rw [isWhole, hkind, hx]
    rfl
  rw [expanded_atom h, hw]
  apply (Legible.numeral x).congr
  rw [hm, hd]
  simp [ValueRule.numberTemplate, slots, Part.socket?]

theorem Inner.legible_coordinate {template : Template} (hi : t.Inner)
    (hk : ValueRule.ofKind? t.block.kind = some .coordinate)
    (hr : ValueRule.coordinate.template t.block = .ok template)
    (h : t.expanded template.parts = .ok text) :
    Legible t.Misread false ⟨text, template.order⟩ := by
  have hkind := (ValueRule.suits_ofKind? hk).checked "position_get_coordinate" rfl
  have hm := misread_iff hk hr
  rw [ValueRule.template, ValueRule.coordinateTemplate] at hr
  split at hr
  · rename_i hname
    cases hr
    apply (hi.coordinate hname h).congr
    rw [hm, dotsNumber_eq hkind, or_comm]
    simp [slots, Part.socket?]
  · cases hr

theorem Inner.legible_other {rule : ValueRule} {template : Template} (hi : t.Inner)
    (hk : ValueRule.ofKind? t.block.kind = some rule) (hr : rule.template t.block = .ok template)
    (hn : rule ≠ .number) (hc : rule ≠ .coordinate) (h : t.expanded template.parts = .ok text) :
    Legible t.Misread false ⟨text, template.order⟩ := by
  have hd : t.dotsNumber = false := by
    apply dotsNumber_eq_false
    intro he
    rw [he] at hk
    exact hc (Option.some.inj hk.symm)
  apply (hi.template hk hr hn hc h).congr
  rw [misread_iff hk hr, hd]
  simp

theorem Inner.legible {e : Expression} (hi : t.Inner) (h : t.expression = .ok e) :
    Legible t.Misread t.isWhole e := by
  obtain ⟨rule, template, hk, hr, hx, ho⟩ := expression_eq_ok h
  obtain ⟨text, order⟩ := e
  dsimp only at hx ho
  subst ho
  by_cases hn : rule = .number
  · subst hn
    exact legible_number hk hr hx
  · have hw : t.isWhole = false := by
      apply isWhole_eq_false
      intro he
      rw [he] at hk
      exact hn (Option.some.inj hk.symm)
    rw [hw]
    by_cases hc : rule = .coordinate
    · subst hc
      exact hi.legible_coordinate hk hr hx
    · exact hi.legible_other hk hr hn hc hx

theorem legible {e : Expression} (h : t.expression = .ok e) : Legible t.Misread t.isWhole e := by
  induction hn : t.size using Nat.strongRecOn generalizing t e with
  | _ n ih =>
    subst hn
    apply Inner.legible _ h
    intro socket u x hu hx
    exact ih u.size (size_lt_of_mem_values (Table.mem_of_join_get? hu)) hx rfl

end Tree

/-- The text is an expression of the script language, and its outermost operator binds at least as
tightly as the order says. -/
def Expression.Grammatical (e : Expression) : Prop :=
  ∃ ts o, lex e.text = some ts ∧ Phrase ts o ∧ o.tenths ≤ e.order.tenths

theorem Legible.grammatical_iff {bad : Prop} {w : Bool} {e : Expression} (h : Legible bad w e) :
    e.Grammatical ↔ ¬ bad := by
  obtain ⟨ts, s, o, hs, hp, ho, -⟩ := h.reads
  obtain ⟨hl, hx⟩ := hs.passes.lex_eq (State.isComplete_of_isClosed hs.closed)
  constructor
  · rintro ⟨us, q, hus, -⟩ hb
    rw [hx hb] at hus
    cases hus
  · intro hb
    exact ⟨ts, o, hl hb, hp, ho⟩

namespace Tree

/-- The expression of a tree is one of the script language exactly if no coordinate in the tree is
taken of a whole number. Step by step: it is one exactly if all the expressions that are placed in
it are, with parentheses or without, and the tree itself is no such coordinate. -/
theorem grammatical_unless_dotted {t : Tree} {e : Expression} (h : t.expression = .ok e) :
    (e.Grammatical ↔ ∀ q, (⟨.value, t⟩ : Position).Reaches q → q.tree.dotsNumber = false) ∧
      (e.Grammatical ↔ t.dotsNumber = false ∧ ∀ q ∈ (⟨.value, t⟩ : Position).reads,
        ∃ f, q.tree.expression = .ok f ∧ f.Grammatical) ∧
      ∀ context, (e.within context).Grammatical ↔ e.Grammatical := by
  have hl := legible h
  rw [hl.grammatical_iff]
  refine ⟨?_, ?_, ?_⟩
  · rw [Misread]
    simp only [not_exists, not_and, Bool.not_eq_true]
  · obtain ⟨rule, template, hk, ht, hx, -⟩ := expression_eq_ok h
    rw [misread_iff hk ht, not_or, Bool.not_eq_true]
    apply and_congr_right
    intro _
    constructor
    · intro hm q hq
      obtain ⟨socket, hs, u, hu, rfl⟩ := (mem_reads_iff hk ht).1 hq
      obtain ⟨x, hx⟩ := expression_of_slot hx hs hu
      exact ⟨x, hx, (legible hx).grammatical_iff.2 fun hb => hm ⟨socket, hs, u, hu, hb⟩⟩
    · rintro hm ⟨socket, hs, u, hu, hb⟩
      obtain ⟨x, hx, hg⟩ := hm ⟨.value, u⟩ ((mem_reads_iff hk ht).2 ⟨socket, hs, u, hu, rfl⟩)
      exact (legible hx).grammatical_iff.1 hg hb
  · intro context
    exact (hl.within context).grammatical_iff

def abscissa (t : Tree) : Tree :=
  .node { kind := "position_get_coordinate" } [("POSITION", some t)] [] none

def lesser (a b : Tree) : Tree :=
  .node { kind := "logic_compare", fields := [("OP", .text "LT")] } [("A", some a), ("B", some b)]
    [] none

def negated (t : Tree) : Tree := .node { kind := "logic_negate" } [("BOOL", some t)] [] none

def chosen : Tree := .node { kind := "logic_ternary" } [] [] none

theorem negated_grammatical :
    (lesser chosen.abscissa (Arithmetic.number 5)).negated.expression =
        .ok ⟨"!((false ? null : null).x < 5)", .logicalNot⟩ ∧
      (⟨"!((false ? null : null).x < 5)", .logicalNot⟩ : Expression).Grammatical := by
  have hx : (lesser chosen.abscissa (Arithmetic.number 5)).negated.expression =
      .ok ⟨"!((false ? null : null).x < 5)", .logicalNot⟩ :=
    eq_ok_of_toOption (by decide +kernel)
  have hf : (⟨.value, (lesser chosen.abscissa (Arithmetic.number 5)).negated⟩ : Position).finished =
      [⟨.value, chosen⟩, ⟨.value, chosen.abscissa⟩, ⟨.value, Arithmetic.number 5⟩,
        ⟨.value, lesser chosen.abscissa (Arithmetic.number 5)⟩,
        ⟨.value, (lesser chosen.abscissa (Arithmetic.number 5)).negated⟩] := by
    with_unfolding_all rfl
  refine ⟨hx, (grammatical_unless_dotted hx).1.2 ?_⟩
  intro q hq
  rw [← Position.mem_finished_iff, hf] at hq
  simp only [List.mem_cons, List.not_mem_nil, or_false] at hq
  rcases hq with rfl | rfl | rfl | rfl | rfl <;> rfl

/-- The dot is read as part of the number. -/
theorem abscissa_ungrammatical :
    (Arithmetic.number 5).abscissa.expression = .ok ⟨"5.x", .member⟩ ∧
      ¬ (⟨"5.x", .member⟩ : Expression).Grammatical := by
  refine ⟨eq_ok_of_toOption (by decide +kernel), ?_⟩
  rintro ⟨ts, o, hl, -⟩
  have hn : lex "5.x" = none := by decide +kernel
  rw [hn] at hl
  cases hl

end Tree

end BlockMachine
