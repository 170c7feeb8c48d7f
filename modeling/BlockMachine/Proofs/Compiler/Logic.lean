import BlockMachine.Proofs.Compiler.Leaf
import BlockMachine.Proofs.Compiler.Operators
import BlockMachine.Proofs.Script.Regrouping

namespace BlockMachine.Logic

open Script

def comparison? : String → Option Operator
  | "EQ" => some .equal
  | "NEQ" => some .unequal
  | "LT" => some .less
  | "LTE" => some .atMost
  | "GT" => some .greater
  | "GTE" => some .atLeast
  | _ => none

def connective? : String → Option Operator
  | "AND" => some .and
  | "OR" => some .or
  | _ => none

/-- The term that a socket draws with logic blocks; an empty socket is the given default. -/
inductive Drawn : String → Option Tree → Term Expression → Prop
  | empty (default : String) : Drawn default none (.operand ⟨default, .atomic⟩)
  | leaf {default : String} {t : Tree} {x : Expression} : IsLeaf t x →
    Drawn default (some t) (.operand x)
  | comparison {default : String} {t : Tree} {o : Operator} {a b : Term Expression} :
    t.block.kind = "logic_compare" → comparison? (t.block.fieldTextD "OP" "EQ") = some o →
    Drawn "0" (t.block.value? "A") a → Drawn "0" (t.block.value? "B") b →
    Drawn default (some t) (.binary o a b)
  | connective {default : String} {t : Tree} {o : Operator} {a b : Term Expression} :
    t.block.kind = "logic_operation" → connective? (t.block.fieldTextD "OP" "AND") = some o →
    Drawn (ValueRule.connectiveDefault t.block o.order) (t.block.value? "A") a →
    Drawn (ValueRule.connectiveDefault t.block o.order) (t.block.value? "B") b →
    Drawn default (some t) (.binary o a b)
  | negation {default : String} {t : Tree} {a : Term Expression} :
    t.block.kind = "logic_negate" → Drawn "true" (t.block.value? "BOOL") a →
    Drawn default (some t) (.negation a)
  | choice {default : String} {t : Tree} {c a b : Term Expression} :
    t.block.kind = "logic_ternary" → Drawn "false" (t.block.value? "IF") c →
    Drawn "null" (t.block.value? "THEN") a → Drawn "null" (t.block.value? "ELSE") b →
    Drawn default (some t) (.choice c a b)

/-- Runs of one connective may be grouped in any way. -/
def Runs (o p : Operator) : Prop := o = p ∧ (o = .and ∨ o = .or)

theorem Runs.of_meets {o p : Operator} (ho : 3 ≤ o.level) (h : Term.Meets o p) : Runs o p := by
  cases h with
  | and => exact ⟨rfl, .inl rfl⟩
  | or => exact ⟨rfl, .inr rfl⟩
  | _ => exact absurd ho (by decide)

theorem Runs.trans_meets {o p q : Operator} (h : Runs o p) (hm : Term.Meets p q) : Runs o q := by
  obtain ⟨rfl, ho⟩ := h
  apply Runs.of_meets ?_ hm
  rcases ho with rfl | rfl <;> decide

/-- A term of logic, whose written form shows what it is. -/
structure Legible (e : Term Expression) : Prop where
  readable : e.IsReadable Expression.order
  powerless : e.IsPowerless
  solid : ∀ x ∈ e.operands, Solid x.text.toList
  nests : e.Nests Runs
  undivided : ¬ e.DividesByProduct

namespace Legible

variable {a b c : Term Expression}

theorem operand {x : Expression} (h : x.order.IsOperand ∧ Solid x.text.toList) :
    Legible (.operand x) where
  readable := h.1
  powerless := trivial
  solid := by
    intro y hy
    rw [List.mem_singleton.1 hy]
    exact h.2
  nests := trivial
  undivided := id

theorem negation (h : Legible a) : Legible (.negation a) :=
  ⟨h.readable, h.powerless, h.solid, h.nests, h.undivided⟩

theorem binary {o : Operator} (ho : 3 ≤ o.level) (ha : Legible a) (hb : Legible b) :
    Legible (.binary o a b) where
  readable := ⟨ha.readable, hb.readable⟩
  powerless := ⟨ha.powerless, hb.powerless⟩
  solid := List.forall_mem_append.2 ⟨ha.solid, hb.solid⟩
  nests := ⟨ha.nests, hb.nests, fun _ _ hm _ => .of_meets ho hm⟩
  undivided := by
    rintro (⟨rfl, _⟩ | h | h)
    · exact absurd ho (by decide)
    · exact ha.undivided h
    · exact hb.undivided h

theorem choice (hc : Legible c) (ha : Legible a) (hb : Legible b) : Legible (.choice c a b) where
  readable := ⟨hc.readable, ha.readable, hb.readable⟩
  powerless := ⟨hc.powerless, ha.powerless, hb.powerless⟩
  solid := List.forall_mem_append.2 ⟨List.forall_mem_append.2 ⟨hc.solid, ha.solid⟩, hb.solid⟩
  nests := ⟨hc.nests, ha.nests, hb.nests⟩
  undivided := by
    rintro (h | h | h)
    · exact hc.undivided h
    · exact ha.undivided h
    · exact hb.undivided h

theorem reads_back {e : Term Expression} (h : Legible e) :
    ∃ r, readAround e.operands (.ofList (e.text Expression.order (·.text.toList))) = some r ∧
      Regrouping Runs r e := by
  refine ⟨_, Term.readAround_text h.readable h.powerless h.solid, ?_⟩
  have hr : Regrouping Runs (e.regrouped Expression.order) e.spread :=
    Term.Nests.regrouping (R := Runs) (fun _ _ _ => Runs.trans_meets) h.nests
  rw [Term.spread_eq_self_iff.2 h.undivided] at hr
  exact hr

end Legible

theorem get?_comparisons {name : String} {o : Operator} (h : comparison? name = some o) :
    Table.get? ValueRule.comparisons name = some (.ofList o.spelling, o.order) ∧ 3 ≤ o.level := by
  unfold comparison? at h
  split at h <;> cases h <;> exact ⟨rfl, by decide⟩

theorem get?_connectives {name : String} {o : Operator} (h : connective? name = some o) :
    Table.get? ValueRule.connectives name = some (.ofList o.spelling, o.order) ∧ 3 ≤ o.level := by
  unfold connective? at h
  split at h <;> cases h <;> exact ⟨rfl, by decide⟩

theorem isPreset (default : String) :
    IsPreset Expression.order (·.text.toList) ⟨default, .atomic⟩ default :=
  ⟨rfl, String.ofList_toList⟩

namespace Drawn

theorem yields_leaf {ts : List Tree} {t : Tree} {x preset : Expression} {depth : Nat}
    (h : IsLeaf t x) :
    Yields Expression.order (·.text.toList) (.ofDepth (Tree.diagram ts) (depth + 1)) preset (some t)
      (.operand x) := by
  obtain ⟨_, rule, hr, ht⟩ := h
  apply Yields.ofText (Generator.settles_expression hr ht rfl
    (Generator.settles_expand_text _ Generator.settles_expand_nil))
  simp [Term.text, Term.symbols, Term.pieces]

theorem yields {ts : List Tree} {default : String} {child : Option Tree} {e : Term Expression}
    (h : Drawn default child e) {depth : Nat} (hd : Tree.sizeOption child ≤ depth) :
    Yields Expression.order (·.text.toList) (.ofDepth (Tree.diagram ts) depth) ⟨default, .atomic⟩
      child e := by
  induction h generalizing depth with
  | empty => rfl
  | leaf hx =>
    obtain ⟨depth, rfl, _⟩ := Tree.exists_depth_of_size_le hd
    exact yields_leaf hx
  | @comparison _ t o a b hk ho _ _ iha ihb =>
    obtain ⟨depth, rfl, hs⟩ := Tree.exists_depth_of_size_le hd
    have hr : ValueRule.ofKind? t.block.kind = some .comparison := by rw [hk]; rfl
    have ht : ValueRule.comparison.template t.block =
        .ok (ValueRule.binary (.ofList o.spelling) o.order "0") := by
      simp only [ValueRule.template, (get?_comparisons ho).1]
    exact .binary hr ht (isPreset "0") (iha (hs "A")) (ihb (hs "B"))
  | @connective _ t o a b hk ho _ _ iha ihb =>
    obtain ⟨depth, rfl, hs⟩ := Tree.exists_depth_of_size_le hd
    have hr : ValueRule.ofKind? t.block.kind = some .connective := by rw [hk]; rfl
    have ht : ValueRule.connective.template t.block =
        .ok (ValueRule.binary (.ofList o.spelling) o.order
          (ValueRule.connectiveDefault t.block o.order)) := by
      simp only [ValueRule.template, (get?_connectives ho).1]
    exact .binary hr ht (isPreset _) (iha (hs "A")) (ihb (hs "B"))
  | @negation _ t a hk _ ih =>
    obtain ⟨depth, rfl, hs⟩ := Tree.exists_depth_of_size_le hd
    have hr : ValueRule.ofKind? t.block.kind = some ValueRule.negation := by rw [hk]; rfl
    exact .negation hr (isPreset "true") (ih (hs "BOOL"))
  | @choice _ t c a b hk _ _ _ ihc iha ihb =>
    obtain ⟨depth, rfl, hs⟩ := Tree.exists_depth_of_size_le hd
    have hr : ValueRule.ofKind? t.block.kind = some ValueRule.conditional := by rw [hk]; rfl
    exact .choice hr (isPreset "false") (isPreset "null") (ihc (hs "IF")) (iha (hs "THEN"))
      (ihb (hs "ELSE"))

theorem solid_connectiveDefault (b : Block Tree) (order : Order) :
    Solid (ValueRule.connectiveDefault b order).toList := by
  rw [ValueRule.connectiveDefault]
  split
  · exact Leaf.solid_literal rfl
  · split <;> exact Leaf.solid_literal rfl

theorem legible {default : String} {child : Option Tree} {e : Term Expression}
    (h : Drawn default child e) (hd : child = none → Solid default.toList) : Legible e := by
  induction h with
  | empty default => exact .operand ⟨.inl rfl, hd rfl⟩
  | leaf hx => exact .operand (Leaf.isOperand_solid hx)
  | comparison _ ho _ _ iha ihb =>
    exact .binary (get?_comparisons ho).2 (iha fun _ => Leaf.solid_literal rfl)
      (ihb fun _ => Leaf.solid_literal rfl)
  | connective _ ho _ _ iha ihb =>
    exact .binary (get?_connectives ho).2 (iha fun _ => solid_connectiveDefault _ _)
      (ihb fun _ => solid_connectiveDefault _ _)
  | negation _ _ ih => exact .negation (ih fun _ => Leaf.solid_literal rfl)
  | choice _ _ _ _ ihc iha ihb =>
    exact .choice (ihc fun _ => Leaf.solid_literal rfl) (iha fun _ => Leaf.solid_literal rfl)
      (ihb fun _ => Leaf.solid_literal rfl)

end Drawn

/-- The text of a drawn tree, with the texts of its leaves as operands, is read as the term of the
tree, up to the grouping of runs of one connective. -/
theorem expression_reads_back {ts : List Tree} {default : String} {t : Tree} {e : Term Expression}
    (h : Drawn default (some t) e) (hd : t.size ≤ (Tree.diagram ts).bound) :
    ∃ text r,
      ((Tree.diagram ts).generator.expression t).Settles ⟨text, e.orderBy Expression.order⟩ ∧
      readAround e.operands text = some r ∧ Regrouping Runs r e := by
  obtain ⟨r, hr, hg⟩ := (h.legible nofun).reads_back
  exact ⟨_, r, h.yields (Nat.le_succ_of_le hd), hr, hg⟩

/-- A run of conjunctions over a comparison and an empty socket, as the condition of a choice. -/
theorem expression_reads_back_choice :
    let leaf kind := Tree.node { kind } [] [] none
    let both a b := Tree.node { kind := "logic_operation" } [("A", some a), ("B", b)] [] none
    let less := Tree.node { kind := "logic_compare", fields := [("OP", .text "LT")] }
      [("A", some (leaf "context_battery_percent"))] [] none
    let t := Tree.node { kind := "logic_ternary" }
      [("IF", some (both (leaf "is_projectile_incoming")
          (some (both (leaf "context_is_moving") none)))),
        ("THEN", some (.node { kind := "logic_negate" } [("BOOL", some less)] [] none))] [] none
    let incoming : Expression := ⟨"api.scanForIncomingProjectiles().length > 0", .relational⟩
    let e : Term Expression := .choice
      (.binary .and (.operand incoming)
        (.binary .and (.operand ⟨"context.bot.isMoving", .member⟩) (.operand ⟨"true", .atomic⟩)))
      (.negation (.binary .less (.operand ⟨"context.batteryPercent", .member⟩)
        (.operand ⟨"0", .atomic⟩)))
      (.operand ⟨"null", .atomic⟩)
    Drawn "" (some t) e ∧ t.size ≤ (Tree.diagram [t]).bound ∧
      ∃ text r, ((Tree.diagram [t]).generator.expression t).Settles ⟨text, .conditional⟩ ∧
        readAround e.operands text = some r ∧ Regrouping Runs r e := by
  intro leaf both less t incoming e
  have hi : IsLeaf (leaf "is_projectile_incoming") incoming := ⟨by decide, _, rfl, rfl⟩
  have hm : IsLeaf (leaf "context_is_moving") ⟨"context.bot.isMoving", .member⟩ :=
    ⟨by decide, _, rfl, rfl⟩
  have hp : IsLeaf (leaf "context_battery_percent") ⟨"context.batteryPercent", .member⟩ :=
    ⟨by decide, _, rfl, rfl⟩
  have h : Drawn "" (some t) e :=
    .choice rfl (.connective rfl rfl (.leaf hi) (.connective rfl rfl (.leaf hm) (.empty _)))
      (.negation rfl (.comparison rfl rfl (.leaf hp) (.empty _))) (.empty _)
  have hd : t.size ≤ (Tree.diagram [t]).bound := Nat.le_refl _
  exact ⟨h, hd, expression_reads_back h hd⟩

end BlockMachine.Logic
