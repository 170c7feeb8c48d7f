namespace BlockMachine

/-- How tightly an expression binds, from the tightest to the loosest. -/
inductive Order where
  | atomic
  | new
  | member
  | functionCall
  | unaryNegation
  | logicalNot
  | typeof
  | await
  | exponentiation
  | multiplication
  | division
  | subtraction
  | addition
  | relational
  | equality
  | logicalAnd
  | logicalOr
  | conditional
  | assignment
  | comma
  | none
deriving DecidableEq, Repr

namespace Order

def tenths : Order → Nat
  | .atomic => 0
  | .new => 11
  | .member => 12
  | .functionCall => 20
  | .unaryNegation => 43
  | .logicalNot => 44
  | .typeof => 45
  | .await => 48
  | .exponentiation => 50
  | .multiplication => 51
  | .division => 52
  | .subtraction => 61
  | .addition => 62
  | .relational => 80
  | .equality => 90
  | .logicalAnd => 130
  | .logicalOr => 140
  | .conditional => 150
  | .assignment => 160
  | .comma => 180
  | .none => 990

def all : List Order :=
  [.atomic, .new, .member, .functionCall, .unaryNegation, .logicalNot, .typeof, .await,
    .exponentiation, .multiplication, .division, .subtraction, .addition, .relational, .equality,
    .logicalAnd, .logicalOr, .conditional, .assignment, .comma, .none]

/-- Pairs of a context and an expression in it that read the same with and without parentheses,
though the expression does not bind more tightly. -/
def nestable : List (Order × Order) :=
  [(.functionCall, .member), (.functionCall, .functionCall), (.member, .member),
    (.member, .functionCall), (.logicalNot, .logicalNot), (.multiplication, .multiplication),
    (.addition, .addition), (.logicalAnd, .logicalAnd), (.logicalOr, .logicalOr)]

/-- Whether an expression that binds at `inner` needs parentheses in a context of order `outer`. -/
def needsParens (inner outer : Order) : Bool :=
  if inner.tenths < outer.tenths then false
  else if inner = outer ∧ (outer = .atomic ∨ outer = .none) then false
  else !nestable.contains (outer, inner)

end Order

/-- The text of an expression and how tightly it binds. -/
structure Expression where
  text : String
  order : Order := .atomic
deriving DecidableEq, Repr

/-- The expression as it stands in a context of the given order. -/
def Expression.within (e : Expression) (context : Order) : Expression :=
  if e.order.needsParens context then ⟨"(" ++ e.text ++ ")", .atomic⟩ else e

end BlockMachine
