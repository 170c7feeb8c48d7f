import BlockMachine.Script.Precedence

namespace BlockMachine

/-- The level of the grammar to which an order belongs. Level zero is that of single operands and of
what is written in front of one; the binary operators follow, and the conditional one comes last. -/
def Order.rank : Order → Nat
  | .multiplication | .division => 1
  | .subtraction | .addition => 2
  | .relational => 3
  | .equality => 4
  | .logicalAnd => 5
  | .logicalOr => 6
  | .conditional => 7
  | .assignment | .comma | .none => 8
  | _ => 0

theorem Order.needsParens_atomic (context : Order) : Order.atomic.needsParens context = false := by
  cases context <;> rfl

namespace Script

/-- The operators with an operand on each side. -/
inductive Operator where
  | times
  | divide
  | plus
  | minus
  | less
  | atMost
  | greater
  | atLeast
  | equal
  | unequal
  | and
  | or
deriving DecidableEq, Repr

namespace Operator

def spelling : Operator → List Char
  | .times => ['*']
  | .divide => ['/']
  | .plus => ['+']
  | .minus => ['-']
  | .less => ['<']
  | .atMost => ['<', '=']
  | .greater => ['>']
  | .atLeast => ['>', '=']
  | .equal => ['=', '=']
  | .unequal => ['!', '=']
  | .and => ['&', '&']
  | .or => ['|', '|']

def order : Operator → Order
  | .times => .multiplication
  | .divide => .division
  | .plus => .addition
  | .minus => .subtraction
  | .less | .atMost | .greater | .atLeast => .relational
  | .equal | .unequal => .equality
  | .and => .logicalAnd
  | .or => .logicalOr

/-- The level on which operators are read from left to right. -/
def level (o : Operator) : Nat := o.order.rank

theorem level_pos (o : Operator) : 0 < o.level := by
  cases o <;> decide

theorem level_le (o : Operator) : o.level ≤ 6 := by
  cases o <;> decide

end Operator

/-- Operands, with or without a sign, joined by operators. -/
inductive Term (α : Type) where
  | operand (a : α)
  | negative (a : α)
  | negation (e : Term α)
  | binary (o : Operator) (left right : Term α)
  | choice (condition yes no : Term α)
  | power (base exponent : Term α)
deriving DecidableEq, Repr

/-- What is written between operands. -/
inductive Mark where
  | operator (o : Operator)
  | bang
  | opening
  | closing
  | comma
  | power
  | question
  | colon
deriving DecidableEq, Repr

/-- A piece of a written term. -/
inductive Piece (α : Type) where
  | mark (m : Mark)
  | operand (a : α)
  | negative (a : α)

variable {α : Type}

/-- Pieces with or without parentheses around them. -/
def enclosed (parens : Bool) (ps : List (Piece α)) : List (Piece α) :=
  if parens then .mark .opening :: ps ++ [.mark .closing] else ps

namespace Term

/-- How tightly a term binds, given the orders of its operands. -/
def orderBy (order : α → Order) : Term α → Order
  | .operand a => order a
  | .negative _ => .unaryNegation
  | .negation _ => .logicalNot
  | .binary o _ _ => o.order
  | .choice .. => .conditional
  | .power .. => .functionCall

/-- Whether a term stands in parentheses in a context of the given order. -/
def isWrapped (order : α → Order) (e : Term α) (context : Order) : Bool :=
  (e.orderBy order).needsParens context

def pieces (order : α → Order) : Term α → List (Piece α)
  | .operand a => [.operand a]
  | .negative a => [.negative a]
  | .negation e => .mark .bang :: enclosed (e.isWrapped order .logicalNot) (pieces order e)
  | .binary o a b =>
    enclosed (a.isWrapped order o.order) (pieces order a) ++
      .mark (.operator o) :: enclosed (b.isWrapped order o.order) (pieces order b)
  | .choice c a b =>
    enclosed (c.isWrapped order .conditional) (pieces order c) ++
      .mark .question :: (enclosed (a.isWrapped order .conditional) (pieces order a) ++
        .mark .colon :: enclosed (b.isWrapped order .conditional) (pieces order b))
  | .power a b =>
    .mark .power :: (enclosed (a.isWrapped order .comma) (pieces order a) ++
      .mark .comma :: (enclosed (b.isWrapped order .comma) (pieces order b) ++
        [.mark .closing]))

def operands : Term α → List α
  | .operand a => [a]
  | .negative a => [a]
  | .negation e => operands e
  | .binary _ a b => operands a ++ operands b
  | .choice c a b => operands c ++ operands a ++ operands b
  | .power a b => operands a ++ operands b

end Term

/-- A character, or an operand that stands as one symbol. -/
abbrev Symbol (α : Type) := Char ⊕ α

namespace Mark

/-- The characters of a mark, with the blanks around it. -/
def spelling : Mark → List Char
  | .operator o => ' ' :: o.spelling ++ [' ']
  | .bang => ['!']
  | .opening => ['(']
  | .closing => [')']
  | .comma => [',', ' ']
  | .power => ['M', 'a', 't', 'h', '.', 'p', 'o', 'w', '(']
  | .question => [' ', '?', ' ']
  | .colon => [' ', ':', ' ']

end Mark

def Piece.symbols : Piece α → List (Symbol α)
  | .mark m => m.spelling.map .inl
  | .operand a => [.inr a]
  | .negative a => [.inl '-', .inr a]

/-- The text of symbols, given the texts of the operands. -/
def spell (shown : α → List Char) (ss : List (Symbol α)) : List Char :=
  ss.flatMap (Sum.elim (fun c => [c]) shown)

def Term.symbols (order : α → Order) (e : Term α) : List (Symbol α) :=
  (e.pieces order).flatMap Piece.symbols

def Term.text (order : α → Order) (shown : α → List Char) (e : Term α) : List Char :=
  spell shown (e.symbols order)

@[simp] theorem spell_append (shown : α → List Char) (ss us : List (Symbol α)) :
    spell shown (ss ++ us) = spell shown ss ++ spell shown us :=
  List.flatMap_append

@[simp] theorem spell_mark (shown : α → List Char) (m : Mark) :
    spell shown (Piece.mark m : Piece α).symbols = m.spelling := by
  simp [spell, Piece.symbols, List.flatMap_map]

@[simp] theorem spell_operand (shown : α → List Char) (a : α) :
    spell shown (Piece.operand a).symbols = shown a :=
  List.append_nil (shown a)

@[simp] theorem spell_negative (shown : α → List Char) (a : α) :
    spell shown (Piece.negative a).symbols = '-' :: shown a :=
  congrArg (List.cons '-') (List.append_nil (shown a))

namespace Term

variable (order : α → Order) (shown : α → List Char)

/-- The text of a term in a context of the given order. -/
def wrappedText (e : Term α) (context : Order) : List Char :=
  if e.isWrapped order context then '(' :: e.text order shown ++ [')'] else e.text order shown

theorem spell_enclosed (e : Term α) (context : Order) :
    spell shown ((enclosed (e.isWrapped order context) (e.pieces order)).flatMap Piece.symbols) =
      e.wrappedText order shown context := by
  rw [wrappedText]
  cases e.isWrapped order context with
  | true => simp [enclosed, text, symbols, Mark.spelling]
  | false => rfl

theorem text_negation (e : Term α) :
    (Term.negation e).text order shown = '!' :: e.wrappedText order shown .logicalNot := by
  simp [text, symbols, pieces, spell_enclosed, Mark.spelling]

theorem text_binary (o : Operator) (a b : Term α) :
    (Term.binary o a b).text order shown =
      a.wrappedText order shown o.order ++
        ((' ' :: o.spelling ++ [' ']) ++ b.wrappedText order shown o.order) := by
  simp [text, symbols, pieces, spell_enclosed, Mark.spelling]

theorem text_choice (c a b : Term α) :
    (Term.choice c a b).text order shown =
      c.wrappedText order shown .conditional ++
        ([' ', '?', ' '] ++ (a.wrappedText order shown .conditional ++
          ([' ', ':', ' '] ++ b.wrappedText order shown .conditional))) := by
  simp [text, symbols, pieces, spell_enclosed, Mark.spelling]

theorem text_power (a b : Term α) :
    (Term.power a b).text order shown =
      Mark.power.spelling ++ (a.wrappedText order shown .comma ++
        ([',', ' '] ++ (b.wrappedText order shown .comma ++ [')']))) := by
  simp [text, symbols, pieces, spell_enclosed, Mark.spelling]

end Term
end Script
end BlockMachine
