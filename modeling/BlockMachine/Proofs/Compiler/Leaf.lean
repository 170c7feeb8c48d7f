import BlockMachine.Proofs.Compiler.Settled
import BlockMachine.Proofs.Script.Scanning
import BlockMachine.Proofs.Table

namespace BlockMachine.Leaf

open Script

theorem solid_cons {cs : List Char} (h : Solid cs) (c : Char) : Solid (c :: cs) := by
  obtain ⟨d, hd, hn⟩ := h
  exact ⟨d, List.mem_cons_of_mem c hd, hn⟩

theorem solid_of_mem {cs : List Char} {c : Char} (hc : c ∈ cs) (h : isMarkChar c = false) :
    Solid cs :=
  ⟨c, hc, by rw [h]; decide⟩

theorem not_isMarkChar_of_isWordChar {c : Char} (h : Identifier.isWordChar c = true) :
    isMarkChar c = false := by
  have hall : (markChars.all fun d => !Identifier.isWordChar d) = true := by decide
  cases hm : isMarkChar c with
  | false => rfl
  | true =>
    have hn := List.all_eq_true.1 hall c (List.contains_iff_mem.1 hm)
    rw [h] at hn
    cases hn

theorem solid_toDigits (n : Nat) : Solid (Nat.toDigits 10 n) := by
  obtain ⟨d, hd⟩ := List.exists_mem_of_ne_nil _ (Nat.toDigits_ne_nil (b := 10) (n := n))
  have hdigit := Text.isDigit_toDigits n d hd
  apply solid_of_mem hd
  apply not_isMarkChar_of_isWordChar
  simp [Identifier.isWordChar, Char.isAlphanum, hdigit]

theorem solid_decimal (n : Int) : Solid (Text.decimal n) := by
  rw [Text.decimal]
  split
  · exact solid_cons (solid_toDigits _) '-'
  · exact solid_toDigits _

theorem solid_positionalText (digits : List Char) (whole : Int) :
    Solid (Binary64.positionalText digits whole) := by
  apply solid_of_mem (c := '.') ?_ (by decide)
  rw [Binary64.positionalText]
  split <;> simp

theorem solid_scientificText (digits : List Char) (exponent : Int) :
    Solid (Binary64.scientificText digits exponent) :=
  solid_of_mem (c := 'e') (by simp [Binary64.scientificText]) (by decide)

theorem solid_magnitudeText (m p : Nat) : Solid (Binary64.magnitudeText m p) := by
  rw [Binary64.magnitudeText]
  split
  · exact solid_of_mem (c := '.') (by decide) (by decide)
  · rw [Binary64.Decimal.text]
    split
    · exact solid_positionalText _ _
    · exact solid_scientificText _ _

theorem solid_numeral (x : Binary64) : Solid (ValueRule.numeral x).toList := by
  cases x with
  | nan => exact solid_of_mem (c := 'N') (by decide) (by decide)
  | infinite negative =>
    cases negative <;> exact solid_of_mem (c := 'I') (by decide) (by decide)
  | finite negative m p =>
    simp only [ValueRule.numeral]
    split
    · rw [decimalText, String.toList_ofList]
      exact solid_decimal _
    · rw [Binary64.display, String.toList_ofList]
      split
      · exact solid_cons (solid_magnitudeText m p) '-'
      · exact solid_magnitudeText m p

theorem isWordChar_spell (inRun : Bool) (cs : List Char) :
    ∀ c ∈ Identifier.spell inRun cs, Identifier.isWordChar c = true := by
  induction cs generalizing inRun with
  | nil => nofun
  | cons d cs ih =>
    rw [Identifier.spell]
    split
    · cases inRun with
      | true => exact ih true
      | false => exact List.forall_mem_cons.2 ⟨by decide, ih true⟩
    · refine List.forall_mem_cons.2 ⟨?_, ih false⟩
      split
      · assumption
      · decide

theorem solid_identifier (name : String) : Solid (identifier name).toList := by
  have hw := isWordChar_spell false (Text.trim (Text.chars name.toList))
  rw [identifier, String.toList_ofList, Identifier.ofChars]
  generalize Identifier.spell false (Text.trim (Text.chars name.toList)) = cs at hw ⊢
  have hs : ∃ c ∈ Identifier.withStart cs, Identifier.isWordChar c = true := by
    cases cs with
    | nil => exact ⟨'_', List.mem_singleton.2 rfl, by decide⟩
    | cons c cs =>
      refine ⟨c, ?_, hw c List.mem_cons_self⟩
      rw [Identifier.withStart]
      split <;> simp
  obtain ⟨c, hc, hcw⟩ := hs
  apply solid_of_mem (c := c) ?_ (not_isMarkChar_of_isWordChar hcw)
  rw [Identifier.unreserved]
  split
  · exact List.mem_append_left _ hc
  · exact hc

theorem solid_quoted (s : String) : Solid (quoted s).toList := by
  rw [quoted, String.toList_ofList, Text.quoteWith]
  exact solid_of_mem (c := '"') List.mem_cons_self (by decide)

end BlockMachine.Leaf

namespace BlockMachine

open Script

/-- The kinds of values that hold no other block and depend on nothing declared. -/
def leafKinds : List String :=
  ["logic_boolean", "math_number", "text", "local_get_variable"] ++ Table.keys ValueRule.fixedTable

/-- A block of such a kind is compiled to the expression `x`. -/
structure IsLeaf (t : Tree) (x : Expression) : Prop where
  kind_mem : t.block.kind ∈ leafKinds
  template_eq : ∃ rule, ValueRule.ofKind? t.block.kind = some rule ∧
    rule.template t.block = .ok ⟨[.text x.text], x.order, none⟩

/-- Operands that bind like a single operand or like a comparison. -/
def Order.IsOperand (o : Order) : Prop := o.rank = 0 ∨ o = .relational

instance (o : Order) : Decidable o.IsOperand := inferInstanceAs (Decidable (_ ∨ _))

namespace Leaf

theorem solid_literal {l : List Char} (h : l.any (!isMarkChar ·) = true) :
    Solid (String.ofList l).toList := by
  rw [String.toList_ofList]
  obtain ⟨c, hc, hm⟩ := List.any_eq_true.1 h
  exact ⟨c, hc, by simpa using hm⟩

def IsFixed (rule : ValueRule) : Prop :=
  ∃ text order, rule = .fixed text order ∧ order.IsOperand ∧ Solid text.toList

theorem isFixed_cons {kind text : String} {order : Order} {rest : Table ValueRule}
    (ho : order.IsOperand) (ht : Solid text.toList) (hr : ∀ p ∈ rest, IsFixed p.2) :
    ∀ p ∈ (kind, ValueRule.fixed text order) :: rest, IsFixed p.2 :=
  List.forall_mem_cons.2 ⟨⟨text, order, rfl, ho, ht⟩, hr⟩

set_option maxRecDepth 4096 in
theorem isFixed_fixedTable : ∀ p ∈ ValueRule.fixedTable, IsFixed p.2 := by
  unfold ValueRule.fixedTable
  repeat refine isFixed_cons (by decide) (solid_literal rfl) ?_
  nofun

theorem rule_of_mem {kind : String} {rule : ValueRule} (hk : kind ∈ leafKinds)
    (hr : ValueRule.ofKind? kind = some rule) :
    rule = .boolean ∨ rule = .number ∨ rule = .text ∨ rule = .localVariable ∨ IsFixed rule := by
  rcases List.mem_append.1 hk with hk | hk
  · have hcases : kind = "logic_boolean" ∨ kind = "math_number" ∨ kind = "text" ∨
        kind = "local_get_variable" := by simpa using hk
    rcases hcases with rfl | rfl | rfl | rfl <;> cases hr <;> simp
  · rw [ValueRule.ofKind?, ValueRule.table, Table.get?_append_of_mem hk] at hr
    have hf := isFixed_fixedTable (kind, rule) (Table.mem_of_get? hr)
    exact .inr (.inr (.inr (.inr hf)))

theorem isOperand_solid_of_text {text : String} {order : Order} {x : Expression}
    (h : (⟨[.text text], order, none⟩ : Template) = ⟨[.text x.text], x.order, none⟩)
    (ho : order.IsOperand) (ht : Solid text.toList) : x.order.IsOperand ∧ Solid x.text.toList := by
  obtain ⟨text', order'⟩ := x
  cases h
  exact ⟨ho, ht⟩

theorem isOperand_solid {t : Tree} {x : Expression} (h : IsLeaf t x) :
    x.order.IsOperand ∧ Solid x.text.toList := by
  obtain ⟨hk, rule, hr, ht⟩ := h
  rcases rule_of_mem hk hr with rfl | rfl | rfl | rfl | ⟨text, order, rfl, ho, hs⟩
  · apply isOperand_solid_of_text (Except.ok.inj ht) (by decide)
    split <;> exact solid_literal rfl
  · rw [ValueRule.template] at ht
    cases hn : ValueRule.numberOf t.block with
    | error f =>
      rw [hn] at ht
      cases ht
    | ok y =>
      rw [hn] at ht
      apply isOperand_solid_of_text (Except.ok.inj ht) ?_ (solid_numeral y)
      cases y.isNegative <;> decide
  · exact isOperand_solid_of_text (Except.ok.inj ht) (by decide) (solid_quoted _)
  · rw [ValueRule.template] at ht
    cases hn : t.block.fieldText "VAR_NAME" with
    | error f =>
      rw [hn] at ht
      cases ht
    | ok name =>
      rw [hn] at ht
      exact isOperand_solid_of_text (Except.ok.inj ht) (by decide) (solid_identifier name)
  · exact isOperand_solid_of_text (Except.ok.inj ht) ho hs

end Leaf
end BlockMachine
