import BlockMachine.Proofs.Script.Literals
import BlockMachine.Proofs.Script.Term

namespace BlockMachine

namespace Order

theorem mem_all (o : Order) : o ∈ all := by
  cases o <;> decide

theorem rank_le_rank {o q : Order} (h : o.tenths ≤ q.tenths) : o.rank ≤ q.rank := by
  have hall : ∀ o ∈ all, ∀ q ∈ all, o.tenths ≤ q.tenths → o.rank ≤ q.rank := by decide
  exact hall o o.mem_all q q.mem_all h

end Order

open Lexer

/-- Words that name nothing. -/
def keywords : List (List Char) :=
  ["await", "break", "case", "catch", "class", "const", "continue", "debugger", "default", "delete",
    "do", "else", "enum", "export", "extends", "false", "finally", "for", "function", "if",
    "implements", "import", "in", "instanceof", "interface", "let", "new", "null", "package",
    "private", "protected", "public", "return", "static", "super", "switch", "this", "throw",
    "true", "try", "typeof", "var", "void", "while", "with", "yield"].map String.toList

def literals : List (List Char) := ["null", "true", "false"].map String.toList

/-- The operators with an operand on each side. -/
def operators : List (List Char × Order) :=
  [(['*'], .multiplication), (['/'], .division), (['+'], .addition), (['-'], .subtraction),
    (['<'], .relational), (['<', '='], .relational), (['>'], .relational),
    (['>', '='], .relational), (['=', '='], .equality), (['!', '='], .equality),
    (['=', '=', '='], .equality), (['!', '=', '='], .equality), (['&', '&'], .logicalAnd),
    (['|', '|'], .logicalOr)]

/-- One of the expressions that are listed in brackets: what stands in front of it, its tokens and
its order. -/
structure Item where
  lead : List Token
  tokens : List Token
  order : Order

namespace Item

/-- An element of an array or an argument of a call, which may be spread. -/
def IsElement (i : Item) : Prop :=
  (i.lead = [] ∨ i.lead = [.mark ['.', '.', '.']]) ∧ i.order.tenths ≤ Order.assignment.tenths

def IsMember (i : Item) : Prop :=
  (∃ name, i.lead = [.word name, .mark [':']]) ∧ i.order.tenths ≤ Order.assignment.tenths

/-- The tokens of items with commas between them. -/
def list (items : List Item) : List Token :=
  [.mark [',']].intercalate (items.map fun i => i.lead ++ i.tokens)

end Item

/-- The rows of tokens that are expressions, each with the order of the operator that is applied
last. -/
inductive Phrase : List Token → Order → Prop
  | word {w : List Char} : w ∉ keywords → Phrase [.word w] .atomic
  | literal {w : List Char} : w ∈ literals → Phrase [.word w] .atomic
  | number : Phrase [.number] .atomic
  | string : Phrase [.string] .atomic
  /-- The values that depend on nothing are taken as they are listed. -/
  | given {kind text : String} {order : Order} {ts : List Token} :
    (kind, ValueRule.fixed text order) ∈ ValueRule.fixedTable → lex text = some ts → Phrase ts order
  | parens {ts : List Token} {o : Order} :
    Phrase ts o → Phrase (.mark ['('] :: ts ++ [.mark [')']]) .atomic
  | array {items : List Item} : (∀ i ∈ items, Phrase i.tokens i.order) →
    (∀ i ∈ items, i.IsElement) → Phrase (.mark ['['] :: Item.list items ++ [.mark [']']]) .atomic
  | object {items : List Item} : (∀ i ∈ items, Phrase i.tokens i.order) →
    (∀ i ∈ items, i.IsMember) →
    Phrase (.mark ['\x7b'] :: Item.list items ++ [.mark ['\x7d']]) .atomic
  | member {ts : List Token} {o : Order} (name : List Char) :
    Phrase ts o → o.tenths ≤ Order.functionCall.tenths →
    Phrase (ts ++ [.mark ['.'], .word name]) .member
  | index {ts us : List Token} {o q : Order} :
    Phrase ts o → o.tenths ≤ Order.functionCall.tenths → Phrase us q →
    Phrase (ts ++ (.mark ['['] :: us ++ [.mark [']']])) .member
  | call {ts : List Token} {o : Order} {items : List Item} :
    Phrase ts o → o.tenths ≤ Order.functionCall.tenths → (∀ i ∈ items, Phrase i.tokens i.order) →
    (∀ i ∈ items, i.IsElement) →
    Phrase (ts ++ (.mark ['('] :: Item.list items ++ [.mark [')']])) .functionCall
  | negative {ts : List Token} {o : Order} :
    Phrase ts o → o.rank = 0 → Phrase (.mark ['-'] :: ts) .unaryNegation
  | negation {ts : List Token} {o : Order} :
    Phrase ts o → o.rank = 0 → Phrase (.mark ['!'] :: ts) .logicalNot
  | binary {m : List Char} {ts us : List Token} {o p q : Order} :
    (m, p) ∈ operators → Phrase ts o → o.rank ≤ p.rank → Phrase us q → q.rank < p.rank →
    Phrase (ts ++ .mark m :: us) p
  | choice {cs ts us : List Token} {o p q : Order} :
    Phrase cs o → o.rank < Order.conditional.rank → Phrase ts p →
    p.tenths ≤ Order.assignment.tenths → Phrase us q → q.tenths ≤ Order.assignment.tenths →
    Phrase (cs ++ .mark ['?'] :: (ts ++ .mark [':'] :: us)) .conditional
  /-- A function of one parameter. With a brace behind the arrow it would have a body instead. -/
  | arrow {x : List Char} {ts : List Token} {o : Order} :
    x ∉ keywords → Phrase ts o → o.tenths ≤ Order.assignment.tenths →
    ts.head? ≠ some (.mark ['\x7b']) →
    Phrase (.mark ['('] :: .word x :: .mark [')'] :: .mark ['=', '>'] :: ts) .assignment

theorem rank_of_operator {m : List Char} {p : Order} (h : (m, p) ∈ operators) :
    0 < p.rank ∧ p.rank < Order.conditional.rank := by
  have hall : ∀ e ∈ operators, 0 < e.2.rank ∧ e.2.rank < Order.conditional.rank := by decide
  exact hall _ h

theorem tenths_of_operator {m : List Char} {p : Order} (h : (m, p) ∈ operators) :
    Order.functionCall.tenths < p.tenths ∧ p.tenths ≤ Order.assignment.tenths := by
  have hall : ∀ e ∈ operators, Order.functionCall.tenths < e.2.tenths ∧
      e.2.tenths ≤ Order.assignment.tenths := by decide
  exact hall _ h

theorem ValueRule.rank_fixed {kind text : String} {order : Order}
    (h : (kind, fixed text order) ∈ fixedTable) : order.rank = 0 ∨ order = .relational := by
  have hall : ∀ e ∈ fixedTable, ∀ text order, e.2 = fixed text order →
      order.rank = 0 ∨ order = .relational := by
    unfold fixedTable
    repeat refine List.forall_mem_cons.2 ⟨by rintro _ _ ⟨⟩; decide, ?_⟩
    exact List.forall_mem_nil _
  exact hall _ h _ _ rfl

namespace Phrase

variable {m : List Char} {ts us : List Token} {o p q : Order}

theorem identifier {w : String} (h : Identifier.Valid w) : Phrase [.word w.toList] .atomic := by
  have hall : (keywords.all fun w => Identifier.reserved.contains (String.ofList w)) = true := by
    decide +kernel
  apply word
  intro hw
  have hr := List.all_eq_true.1 hall _ hw
  rw [String.ofList_toList] at hr
  exact h.unreserved (List.contains_iff_mem.1 hr)

/-- An operator with an operand of its own level on the right. As operators group to the left, it
is applied to the first operand there, and the last operator of that one is applied last. -/
theorem join (hm : (m, p) ∈ operators) (hp : p ≠ .relational) (h : Phrase ts o)
    (ho : o.rank ≤ p.rank) (h' : Phrase us q) (hq : q.rank = p.rank) :
    Phrase (ts ++ .mark m :: us) q := by
  obtain ⟨hpos, hlt⟩ := rank_of_operator hm
  induction h' with
  | word | literal | number | string | parens | array | object | member | index | call | negative
    | negation =>
    exact absurd hq (Nat.ne_of_lt hpos)
  | choice | arrow =>
    rw [← hq] at hlt
    exact absurd hlt (by decide)
  | given hg hl =>
    rcases ValueRule.rank_fixed hg with hz | rfl
    · rw [← hq, hz] at hpos
      exact absurd hpos (Nat.lt_irrefl 0)
    · have hr : ∀ e ∈ operators, Order.relational.rank = e.2.rank → e.2 = .relational := by decide
      exact absurd (hr _ hm hq) hp
  | @binary m' xs ys a b c hm' hx ha hy hc ihx _ =>
    -- The operands are `ts`, `xs` and `ys`, and the first two are joined first.
    rw [← List.cons_append, ← List.append_assoc]
    rw [hq] at ha hc
    rcases Nat.lt_or_eq_of_le ha with hlt | heq
    · exact binary hm' (binary hm h ho hx hlt) (Nat.le_of_eq hq.symm) hy (hq ▸ hc)
    · exact binary hm' (ihx heq) (hq ▸ ha) hy (hq ▸ hc)

theorem operation (hm : (m, p) ∈ operators) (h : Phrase ts o) (ho : o.rank ≤ p.rank)
    (h' : Phrase us q) (hq : q.tenths ≤ p.tenths) (hp : p = .relational → q.rank < p.rank) :
    ∃ r, Phrase (ts ++ .mark m :: us) r ∧ r.tenths ≤ p.tenths := by
  rcases Nat.lt_or_eq_of_le (Order.rank_le_rank hq) with hlt | heq
  · exact ⟨p, binary hm h ho h' hlt, Nat.le_refl _⟩
  · have hn : p ≠ .relational := fun he => Nat.ne_of_lt (hp he) heq
    exact ⟨q, join hm hn h ho h' heq, hq⟩

theorem numeral {cs : List Char} {t : Token} {s : Lexer.State} (h : Numeral cs t s) :
    Phrase [t] .atomic := by
  have ht := h.token
  simp only [List.mem_cons, List.not_mem_nil, or_false] at ht
  rcases ht with rfl | rfl | rfl
  · exact number
  · exact word (by decide +kernel)
  · exact word (by decide +kernel)

end Phrase

end BlockMachine
