import BlockMachine.Proofs.Script.Regrouping

namespace BlockMachine.Script

/-- What an operator makes of two numbers, if anything. -/
def Operator.apply : Operator → Rat → Rat → Option Rat
  | .times, x, y => some (x * y)
  | .divide, x, y => if y = 0 then none else some (x / y)
  | .plus, x, y => some (x + y)
  | .minus, x, y => some (x - y)
  | _, _, _ => none

namespace Term

variable {pow : Rat → Rat → Option Rat}

/-- The value of a term; only arithmetic has one. -/
def value (pow : Rat → Rat → Option Rat) : Term Nat → Option Rat
  | .operand n => some n
  | .negative n => some (-n)
  | .binary o a b => (value pow a).bind fun x => (value pow b).bind fun y => o.apply x y
  | .power a b => (value pow a).bind fun x => (value pow b).bind fun y => pow x y
  | .negation _ => none
  | .choice .. => none

/-- Operators that may be grouped either way. -/
def Associates (o p : Operator) : Prop := Meets o p ∧ o ≠ .divide

theorem Associates.apply_assoc {o p : Operator} (h : Associates o p) (x y z : Rat) :
    (o.apply x y).bind (fun u => p.apply u z) = (p.apply y z).bind fun u => o.apply x u := by
  obtain ⟨hm, hd⟩ := h
  cases hm with
  | product => exact congrArg some (Rat.mul_assoc x y z)
  | quotient => exact absurd rfl hd
  | sum => exact congrArg some (Rat.add_assoc x y z)
  | difference =>
    change some (x + y - z) = some (x + (y - z))
    rw [Rat.sub_eq_add_neg, Rat.sub_eq_add_neg, Rat.add_assoc]
  | and => rfl
  | or => rfl

theorem value_assoc {o p : Operator} (h : Associates o p) (a b c : Term Nat) :
    (Term.binary p (.binary o a b) c).value pow = (Term.binary o a (.binary p b c)).value pow := by
  simp only [value]
  cases a.value pow with
  | none => rfl
  | some x =>
    cases b.value pow with
    | none => rfl
    | some y =>
      cases c.value pow with
      | none => simp
      | some z => exact h.apply_assoc x y z

theorem value_eq_of_regrouping {a b : Term Nat} (h : Regrouping Associates a b) :
    a.value pow = b.value pow := by
  induction h with
  | refl => rfl
  | symm _ ih => exact ih.symm
  | trans _ _ ih₁ ih₂ => exact ih₁.trans ih₂
  | assoc a b c h => exact value_assoc h a b c
  | negation => rfl
  | binary o _ _ iha ihb => simp only [value, iha, ihb]
  | choice => rfl
  | power _ _ iha ihb => simp only [value, iha, ihb]

theorem nests_associates {α : Type} (e : Term α) : e.Nests Associates := by
  induction e with
  | operand _ => trivial
  | negative _ => trivial
  | negation _ ih => exact ih
  | binary o a b iha ihb => exact ⟨iha, ihb, fun p _ hm hd => ⟨hm, hd⟩⟩
  | choice _ _ _ ihc iha ihb => exact ⟨ihc, iha, ihb⟩
  | power _ _ iha ihb => exact ⟨iha, ihb⟩

theorem value_regrouped (pow : Rat → Rat → Option Rat) (order : Nat → Order) (e : Term Nat) :
    (e.regrouped order).value pow = e.spread.value pow :=
  value_eq_of_regrouping
    (e.nests_associates.regrouping fun _ _ _ h hm => ⟨h.1.trans hm, h.2⟩)

end Term
end BlockMachine.Script
