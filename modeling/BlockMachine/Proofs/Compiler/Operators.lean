import BlockMachine.Proofs.Compiler.Settled
import BlockMachine.Proofs.Script.Term

namespace BlockMachine

namespace Tree

theorem sizeOption_le_of_lookup {sockets : List (String × Option Tree)} {socket : String}
    {child : Option Tree} (h : List.lookup socket sockets = some child) :
    sizeOption child ≤ sizeSockets sockets := by
  induction sockets with
  | nil => cases h
  | cons entry rest ih =>
    obtain ⟨name, t⟩ := entry
    rw [List.lookup_cons] at h
    rw [sizeSockets]
    split at h
    · cases h
      exact Nat.le_add_right _ _
    · exact Nat.le_trans (ih h) (Nat.le_add_left _ _)

theorem sizeOption_value?_lt (t : Tree) (socket : String) :
    sizeOption (t.block.value? socket) < t.size := by
  cases t with
  | node label values statements next =>
    change sizeOption (List.lookup socket values).join < _
    rw [size]
    cases h : List.lookup socket values with
    | none =>
      rw [Option.join_none, sizeOption]
      omega
    | some child =>
      have := sizeOption_le_of_lookup h
      rw [Option.join_some]
      omega

theorem exists_depth_of_size_le {t : Tree} {depth : Nat} (h : sizeOption (some t) ≤ depth) :
    ∃ d, depth = d + 1 ∧ ∀ socket, sizeOption (t.block.value? socket) ≤ d := by
  rw [sizeOption] at h
  have hs := t.sizeOption_value?_lt
  refine ⟨depth - 1, ?_, fun socket => ?_⟩
  · have := hs ""
    omega
  · have := hs socket
    omega

end Tree

namespace Script

open Generator

variable {α : Type} (order : α → Order) (shown : α → List Char)

/-- An operand that stands for an empty socket. -/
structure IsPreset (preset : α) (default : String) : Prop where
  order_eq : order preset = .atomic
  text_eq : .ofList (shown preset) = default

/-- A socket is compiled to a term; an empty one stands for the operand `preset`. -/
def Yields (g : Generator Tree) (preset : α) (child : Option Tree) (e : Term α) : Prop :=
  match child with
  | none => e = .operand preset
  | some t => (g.expression t).Settles ⟨.ofList (e.text order shown), e.orderBy order⟩

variable {order shown} {g : Generator Tree} {preset : α} {default : String} {child : Option Tree}
  {a b c e : Term α}

theorem Term.text_within (e : Term α) (context : Order) :
    (Expression.within ⟨.ofList (e.text order shown), e.orderBy order⟩ context).text =
      .ofList (e.wrappedText order shown context) := by
  rw [Expression.within, Term.wrappedText, Term.isWrapped]
  cases (e.orderBy order).needsParens context with
  | true =>
    change "(" ++ String.ofList _ ++ ")" = String.ofList ('(' :: _ ++ [')'])
    rw [String.ofList_append, String.ofList_cons]
    rfl
  | false => rfl

namespace Yields

theorem ofText {t : Tree} {s : String} (h : (g.expression t).Settles ⟨s, e.orderBy order⟩)
    (hs : s.toList = e.text order shown) : Yields order shown g preset (some t) e := by
  rw [Yields, ← hs, String.ofList_toList]
  exact h

theorem value (h : Yields order shown g preset child e) (hd : IsPreset order shown preset default)
    (context : Order) :
    ∃ x : Expression, (g.value child context default).Settles x ∧
      x.text = .ofList (e.wrappedText order shown context) := by
  cases child with
  | none =>
    have hw : (Term.operand preset).isWrapped order context = false := by
      rw [Term.isWrapped, Term.orderBy, hd.order_eq]
      exact Order.needsParens_atomic context
    cases h
    refine ⟨_, settles_value_none context _, ?_⟩
    rw [Term.wrappedText, hw, Term.text, Term.symbols, Term.pieces]
    simp [hd.text_eq]
  | some t => exact ⟨_, settles_value_some h context _, e.text_within context⟩

variable {ts : List Tree} {t : Tree} {n : Nat} {rule : ValueRule} {preset₁ preset₂ : α}

theorem binary {o : Operator} (hk : ValueRule.ofKind? t.block.kind = some rule)
    (ht : rule.template t.block = .ok (ValueRule.binary (.ofList o.spelling) o.order default))
    (hd : IsPreset order shown preset₁ default)
    (ha : Yields order shown (ofDepth (Tree.diagram ts) n) preset₁ (t.block.value? "A") a)
    (hb : Yields order shown (ofDepth (Tree.diagram ts) n) preset₁ (t.block.value? "B") b) :
    Yields order shown (ofDepth (Tree.diagram ts) (n + 1)) preset (some t) (.binary o a b) := by
  obtain ⟨x, hx, ex⟩ := ha.value hd o.order
  obtain ⟨y, hy, ey⟩ := hb.value hd o.order
  refine ofText (settles_expression hk ht rfl
    (settles_expand_slot hx (settles_expand_text _ (settles_expand_slot hy settles_expand_nil)))) ?_
  simp [ex, ey, Term.text_binary]

theorem power (hk : ValueRule.ofKind? t.block.kind = some rule)
    (ht : rule.template t.block = .ok ValueRule.powerTemplate)
    (hd : IsPreset order shown preset₁ "0")
    (ha : Yields order shown (ofDepth (Tree.diagram ts) n) preset₁ (t.block.value? "A") a)
    (hb : Yields order shown (ofDepth (Tree.diagram ts) n) preset₁ (t.block.value? "B") b) :
    Yields order shown (ofDepth (Tree.diagram ts) (n + 1)) preset (some t) (.power a b) := by
  obtain ⟨x, hx, ex⟩ := ha.value hd .comma
  obtain ⟨y, hy, ey⟩ := hb.value hd .comma
  refine ofText (settles_expression hk ht rfl
    (settles_expand_text _ (settles_expand_slot hx (settles_expand_text _
      (settles_expand_slot hy (settles_expand_text _ settles_expand_nil)))))) ?_
  simp [ex, ey, Term.text_power, Mark.spelling]

theorem negation (hk : ValueRule.ofKind? t.block.kind = some ValueRule.negation)
    (hd : IsPreset order shown preset₁ "true")
    (ha : Yields order shown (ofDepth (Tree.diagram ts) n) preset₁ (t.block.value? "BOOL") a) :
    Yields order shown (ofDepth (Tree.diagram ts) (n + 1)) preset (some t) (.negation a) := by
  obtain ⟨x, hx, ex⟩ := ha.value hd .logicalNot
  refine ofText (settles_expression hk rfl rfl
    (settles_expand_text _ (settles_expand_slot hx settles_expand_nil))) ?_
  simp [ex, Term.text_negation]

theorem choice (hk : ValueRule.ofKind? t.block.kind = some ValueRule.conditional)
    (hd₁ : IsPreset order shown preset₁ "false") (hd₂ : IsPreset order shown preset₂ "null")
    (hc : Yields order shown (ofDepth (Tree.diagram ts) n) preset₁ (t.block.value? "IF") c)
    (ha : Yields order shown (ofDepth (Tree.diagram ts) n) preset₂ (t.block.value? "THEN") a)
    (hb : Yields order shown (ofDepth (Tree.diagram ts) n) preset₂ (t.block.value? "ELSE") b) :
    Yields order shown (ofDepth (Tree.diagram ts) (n + 1)) preset (some t) (.choice c a b) := by
  obtain ⟨z, hz, ez⟩ := hc.value hd₁ .conditional
  obtain ⟨x, hx, ex⟩ := ha.value hd₂ .conditional
  obtain ⟨y, hy, ey⟩ := hb.value hd₂ .conditional
  refine ofText (settles_expression hk rfl rfl
    (settles_expand_slot hz (settles_expand_text _ (settles_expand_slot hx
      (settles_expand_text _ (settles_expand_slot hy settles_expand_nil)))))) ?_
  simp [ex, ey, ez, Term.text_choice]

end Yields
end Script
end BlockMachine
