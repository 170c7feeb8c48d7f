import BlockMachine.Proofs.Compiler.Operators
import BlockMachine.Proofs.Number.Numeral
import BlockMachine.Proofs.Number.Rounding
import BlockMachine.Proofs.Script.Evaluation
import BlockMachine.Proofs.Script.Scanning

namespace BlockMachine.Arithmetic

open Script

/-- The operator that an operation stands for. -/
def operator? : String → Option Operator
  | "ADD" => some .plus
  | "MINUS" => some .minus
  | "MULTIPLY" => some .times
  | "DIVIDE" => some .divide
  | _ => none

def literal (n : Int) : Term Nat := if n < 0 then .negative n.natAbs else .operand n.natAbs

/-- The integer that the field of a number states; a field that is absent states zero. -/
inductive States : Option FieldValue → Int → Prop
  | absent : States none 0
  | int (n : Int) : States (some (.int n)) n
  | text (n : Int) : States (some (.text (decimalText n))) n

/-- The term that a socket draws with arithmetic blocks and integers; an empty socket is zero. -/
inductive Drawn : Option Tree → Term Nat → Prop
  | empty : Drawn none (.operand 0)
  | number {t : Tree} {n : Int} : t.block.kind = "math_number" →
    States (t.block.field? "NUM") n → Drawn (some t) (literal n)
  | operation {t : Tree} {o : Operator} {a b : Term Nat} : t.block.kind = "math_arithmetic" →
    operator? (t.block.fieldTextD "OP" "ADD") = some o → Drawn (t.block.value? "A") a →
    Drawn (t.block.value? "B") b → Drawn (some t) (.binary o a b)
  | power {t : Tree} {a b : Term Nat} : t.block.kind = "math_arithmetic" →
    t.block.fieldTextD "OP" "ADD" = "POWER" → Drawn (t.block.value? "A") a →
    Drawn (t.block.value? "B") b → Drawn (some t) (.power a b)

/-- The second term is the first one with every integer rounded to 53 significant bits. -/
def Rounds : Term Nat → Term Nat → Prop := Term.Rel fun n m => Binary64.RoundsTo n m

theorem orderBy_literal {x : Binary64} {n : Int} (h : x.toInt? = some n) :
    (literal n).orderBy (fun _ => .atomic) = (ValueRule.numberTemplate x).order := by
  rw [literal, ValueRule.numberTemplate, Binary64.isNegative_eq h]
  by_cases hn : n < 0 <;> simp [hn, Term.orderBy]

theorem text_literal (n : Int) :
    (literal n).text (fun _ => .atomic) (Nat.toDigits 10) = Text.decimal n := by
  rw [literal, Text.decimal]
  split <;> simp [Term.text, Term.symbols, Term.pieces]

theorem numeral_of_toInt? {x : Binary64} {n : Int} (h : x.toInt? = some n) :
    ValueRule.numeral x = decimalText n := by
  cases x with
  | nan => cases h
  | infinite negative => cases h
  | finite negative m p => simp only [ValueRule.numeral, h]

theorem get?_arithmetics {name : String} {o : Operator} (h : operator? name = some o) :
    name ≠ "POWER" ∧
      Table.get? ValueRule.arithmetics name = some (.ofList o.spelling, o.order) := by
  unfold operator? at h
  split at h <;> cases h <;> exact ⟨by decide, rfl⟩

theorem template_operation {b : Block Tree} {o : Operator}
    (h : operator? (b.fieldTextD "OP" "ADD") = some o) :
    ValueRule.arithmetic.template b =
      .ok (ValueRule.binary (.ofList o.spelling) o.order "0") := by
  obtain ⟨hp, hg⟩ := get?_arithmetics h
  simp only [ValueRule.template, if_neg hp, hg]

theorem template_power {b : Block Tree} (h : b.fieldTextD "OP" "ADD" = "POWER") :
    ValueRule.arithmetic.template b = .ok ValueRule.powerTemplate := by
  simp only [ValueRule.template, if_pos h]

theorem isPreset_zero : IsPreset (fun _ => Order.atomic) (Nat.toDigits 10) 0 "0" := ⟨rfl, rfl⟩

theorem rounds_literal {n m : Int} (h : Binary64.RoundsTo n m) :
    Rounds (literal n) (literal m) := by
  rw [literal, literal]
  by_cases hn : n < 0
  · rw [if_pos hn, if_pos (h.neg_iff.2 hn)]
    apply Term.Rel.negative
    rw [Int.ofNat_natAbs_of_nonpos (by omega),
      Int.ofNat_natAbs_of_nonpos (Int.le_of_lt (h.neg_iff.2 hn))]
    exact h.neg
  · have hm : ¬ m < 0 := fun hm => hn (h.neg_iff.1 hm)
    rw [if_neg hn, if_neg hm]
    apply Term.Rel.operand
    rw [Int.natAbs_of_nonneg (by omega), Int.natAbs_of_nonneg (by omega)]
    exact h

theorem Rounds.eq {e a b : Term Nat} (ha : Rounds e a) (hb : Rounds e b) : a = b := by
  apply ha.right_unique _ hb
  intro n m k hm hk
  exact Int.ofNat_inj.1 (Binary64.RoundsTo.eq hm hk)

theorem Rounds.eq_self {e d : Term Nat} (h : Rounds e d) (he : ∀ n ∈ e.operands, n ≤ 2 ^ 53) :
    d = e := by
  apply h.eq
  apply Term.Rel.refl_of
  intro n hn
  exact Binary64.roundsTo_of_le (he n hn)

theorem natAbs_mem_operands (n : Int) : n.natAbs ∈ (literal n).operands := by
  rw [literal]
  split <;> exact List.mem_singleton_self _

theorem numberOf_int {ρ : Type} {b : Block ρ} {n : Int} {x : Binary64}
    (hf : b.field? "NUM" = some (.int n)) (hx : Binary64.ofInt? n = some x) :
    ValueRule.numberOf b = .ok x := by
  simp only [ValueRule.numberOf, hf, hx, Option.elim_some]

theorem numberOf_text {ρ : Type} {b : Block ρ} {s : String} {x : Binary64}
    (hf : b.field? "NUM" = some (.text s)) (hx : Numeral.ofField? s = some x) :
    ValueRule.numberOf b = .ok x := by
  simp only [ValueRule.numberOf, hf, hx]

theorem States.exists_numberOf {ρ : Type} {b : Block ρ} {n : Int} (h : States (b.field? "NUM") n)
    (hn : n.natAbs < 2 ^ 1024 - 2 ^ 970) :
    ∃ x m, ValueRule.numberOf b = .ok x ∧ x.toInt? = some m ∧ Binary64.RoundsTo n m := by
  obtain ⟨x, m, hx, hm, hround⟩ := Binary64.exists_ofInt? hn
  generalize hv : b.field? "NUM" = v at h
  cases h with
  | absent =>
    have hz : Binary64.zero.toInt? = some 0 :=
      Binary64.toInt?_finite (m := 0) (by rw [Nat.zero_mul, Nat.zero_mul])
    exact ⟨.zero, 0, by simp only [ValueRule.numberOf, hv], hz, Binary64.roundsTo_of_lt (by decide)⟩
  | int => exact ⟨x, m, numberOf_int hv hx, hm, hround⟩
  | text => exact ⟨x, m, numberOf_text hv ((Numeral.ofField?_eq_ofInt? hn).trans hx), hm, hround⟩

namespace Drawn

theorem yields_number {ts : List Tree} {t : Tree} {x : Binary64} {n : Int} {depth : Nat}
    (hk : t.block.kind = "math_number") (hx : ValueRule.numberOf t.block = .ok x)
    (hn : x.toInt? = some n) :
    Yields (fun _ => .atomic) (Nat.toDigits 10) (.ofDepth (Tree.diagram ts) (depth + 1)) 0 (some t)
      (literal n) := by
  have hr : ValueRule.ofKind? t.block.kind = some .number := by rw [hk]; rfl
  have ht : ValueRule.number.template t.block = .ok (ValueRule.numberTemplate x) := by
    simp only [ValueRule.template, hx, Except.map]
  have hs : ((Generator.ofDepth (Tree.diagram ts) (depth + 1)).expression t).Settles
      ⟨ValueRule.numeral x ++ "", (ValueRule.numberTemplate x).order⟩ :=
    Generator.settles_expression hr ht rfl
      (Generator.settles_expand_text _ Generator.settles_expand_nil)
  rw [← orderBy_literal hn] at hs
  apply Yields.ofText hs
  simp [numeral_of_toInt? hn, decimalText, text_literal]

/-- A drawn tree is compiled to the written form of its rounded term, in a diagram that is deep
enough. -/
theorem yields {ts : List Tree} {child : Option Tree} {e : Term Nat} (h : Drawn child e)
    (he : ∀ n ∈ e.operands, n < 2 ^ 1024 - 2 ^ 970) {depth : Nat}
    (hd : Tree.sizeOption child ≤ depth) :
    ∃ d, Rounds e d ∧
      Yields (fun _ => .atomic) (Nat.toDigits 10) (.ofDepth (Tree.diagram ts) depth) 0 child d := by
  induction h generalizing depth with
  | empty => exact ⟨.operand 0, .operand (Binary64.roundsTo_of_lt (by decide)), rfl⟩
  | @number t n hk hn =>
    obtain ⟨depth, rfl, -⟩ := Tree.exists_depth_of_size_le hd
    obtain ⟨x, m, hx, hm, hround⟩ := hn.exists_numberOf (he _ (natAbs_mem_operands n))
    exact ⟨literal m, rounds_literal hround, yields_number hk hx hm⟩
  | @operation t o a b hk ho _ _ iha ihb =>
    obtain ⟨depth, rfl, hs⟩ := Tree.exists_depth_of_size_le hd
    have hr : ValueRule.ofKind? t.block.kind = some .arithmetic := by rw [hk]; rfl
    obtain ⟨ha, hb⟩ := List.forall_mem_append.1 he
    obtain ⟨a', ra, ya⟩ := iha ha (hs "A")
    obtain ⟨b', rb, yb⟩ := ihb hb (hs "B")
    exact ⟨_, .binary o ra rb, .binary hr (template_operation ho) isPreset_zero ya yb⟩
  | @power t a b hk hp _ _ iha ihb =>
    obtain ⟨depth, rfl, hs⟩ := Tree.exists_depth_of_size_le hd
    have hr : ValueRule.ofKind? t.block.kind = some .arithmetic := by rw [hk]; rfl
    obtain ⟨ha, hb⟩ := List.forall_mem_append.1 he
    obtain ⟨a', ra, ya⟩ := iha ha (hs "A")
    obtain ⟨b', rb, yb⟩ := ihb hb (hs "B")
    exact ⟨_, .power ra rb, .power hr (template_power hp) isPreset_zero ya yb⟩

end Drawn

def number (n : Int) : Tree :=
  .node { kind := "math_number", fields := [("NUM", .int n)] } [] [] none

def operation (name : String) (a b : Option Tree) : Tree :=
  .node { kind := "math_arithmetic", fields := [("OP", .text name)] } [("A", a), ("B", b)] []
    none

theorem drawn_number (n : Int) : Drawn (some (number n)) (literal n) := .number rfl (.int n)

theorem drawn_operation {name : String} {o : Operator} {a b : Option Tree} {d e : Term Nat}
    (h : operator? name = some o) (ha : Drawn a d) (hb : Drawn b e) :
    Drawn (some (operation name a b)) (.binary o d e) :=
  .operation rfl h ha hb

/-- Let `d` be the term of a drawn tree with every integer rounded, which changes none up to
`2 ^ 53`. The text of the tree is read as a term with the value of `d`, where dividing by a product
has become dividing by its first factor and multiplying by the others. Without a division by a
product it is the value of `d` itself. -/
theorem expression_evaluates {ts : List Tree} {t : Tree} {e : Term Nat} (h : Drawn (some t) e)
    (hd : t.size ≤ (Tree.diagram ts).bound) (he : ∀ n ∈ e.operands, n < 2 ^ 1024 - 2 ^ 970) :
    ∃ d text r, (∀ a, Rounds e a ↔ a = d) ∧ ((∀ n ∈ e.operands, n ≤ 2 ^ 53) → d = e) ∧
      ((Tree.diagram ts).generator.expression t).Settles ⟨text, e.orderBy fun _ => .atomic⟩ ∧
      readNumeric text = some r ∧
      (∀ pow, r.value pow = d.spread.value pow) ∧
      (d.spread = d ↔ ¬ e.DividesByProduct) ∧
      (¬ e.DividesByProduct → ∀ pow, r.value pow = d.value pow) := by
  obtain ⟨d, hround, hy⟩ := h.yields he (Nat.le_succ_of_le hd)
  have hv pow := d.value_regrouped pow fun _ => .atomic
  have hs : d.spread = d ↔ ¬ e.DividesByProduct := by
    rw [Term.spread_eq_self_iff, hround.dividesByProduct_iff]
  refine ⟨d, _, _, fun a => ⟨fun ha => ha.eq hround, ?_⟩, hround.eq_self,
    hround.orderBy_eq .atomic ▸ hy, d.readNumeric_text, hv, hs, fun hp pow => ?_⟩
  · rintro rfl
    exact hround
  · rw [hv, hs.2 hp]

/-- Nested differences, a negative divisor, a power, an empty socket and an integer of 54 bits. -/
theorem expression_evaluates_nested :
    let t := operation "MINUS" (number 9007199254740993) (operation "MINUS"
      (operation "DIVIDE" (number (-4)) (operation "POWER" (number 2) none)) (number 1))
    let e (n : Nat) : Term Nat := .binary .minus (.operand n) (.binary .minus
      (.binary .divide (.negative 4) (.power (.operand 2) (.operand 0))) (.operand 1))
    Drawn (some t) (e 9007199254740993) ∧ t.size ≤ (Tree.diagram [t]).bound ∧
      (∀ n ∈ (e 9007199254740993).operands, n < 2 ^ 1024 - 2 ^ 970) ∧
      ¬ (e 9007199254740993).DividesByProduct ∧
      ∃ text r, ((Tree.diagram [t]).generator.expression t).Settles ⟨text, .subtraction⟩ ∧
        readNumeric text = some r ∧ ∀ pow, r.value pow = (e 9007199254740992).value pow := by
  intro t e
  have h : Drawn (some t) (e 9007199254740993) :=
    drawn_operation rfl (drawn_number 9007199254740993) (drawn_operation rfl
      (drawn_operation rfl (drawn_number (-4)) (.power rfl rfl (drawn_number 2) .empty))
      (drawn_number 1))
  have hp : ¬ (e 9007199254740993).DividesByProduct := by
    simp [e, Term.DividesByProduct, Term.operator?]
  have hd : t.size ≤ (Tree.diagram [t]).bound := Nat.le_refl _
  have he : ∀ n ∈ (e 9007199254740993).operands, n < 2 ^ 1024 - 2 ^ 970 := by decide +kernel
  have hr : Rounds (e 9007199254740993) (e 9007199254740992) := by
    have exact {n : Nat} (hn : n < 2 ^ 53) : Binary64.RoundsTo n n := Binary64.roundsTo_of_lt hn
    have tie : Binary64.RoundsTo (9007199254740993 : Nat) (9007199254740992 : Nat) :=
      ⟨1, 4503599627370496, by decide, by decide, by decide⟩
    exact .binary _ (.operand tie) (.binary _ (.binary _ (.negative (exact (by decide)))
      (.power (.operand (exact (by decide))) (.operand (exact (by decide)))))
      (.operand (exact (by decide))))
  obtain ⟨d, text, r, hu, _, ht, ht', _, _, hv⟩ := expression_evaluates h hd he
  obtain rfl := (hu _).1 hr
  exact ⟨h, hd, he, hp, text, r, ht, ht', hv hp⟩

/-- Six over the product of two and three is one, but its text is worth nine. -/
theorem six_over_product :
    let t := operation "DIVIDE" (number 6) (operation "MULTIPLY" (number 2) (number 3))
    let e : Term Nat := .binary .divide (.operand 6) (.binary .times (.operand 2) (.operand 3))
    Drawn (some t) e ∧ (∀ pow, e.value pow = some 1) ∧
      ((Tree.diagram [t]).generator.expression t).Settles ⟨"6 / 2 * 3", .division⟩ ∧
      ∃ r, readNumeric "6 / 2 * 3" = some r ∧ ∀ pow, r.value pow = some 9 := by
  intro t e
  have h : Drawn (some t) e :=
    drawn_operation rfl (drawn_number 6) (drawn_operation rfl (drawn_number 2) (drawn_number 3))
  have hn : ∀ n ∈ e.operands, n < 2 ^ 1024 - 2 ^ 970 := by decide +kernel
  obtain ⟨d, hround, hy⟩ : ∃ d, Rounds e d ∧ Yields (fun _ => .atomic) (Nat.toDigits 10)
      (Tree.diagram [t]).generator 0 (some t) d := h.yields hn (Nat.le_succ _)
  obtain rfl := hround.eq_self (by decide)
  refine ⟨h, fun pow => ?_, hy, _, e.readNumeric_text, fun pow => ?_⟩
  · change Operator.divide.apply (6 : Nat) ((2 : Nat) * (3 : Nat)) = some 1
    decide +kernel
  · change (Operator.divide.apply (6 : Nat) (2 : Nat)).bind (Operator.times.apply · (3 : Nat)) =
      some 9
    decide +kernel

end BlockMachine.Arithmetic
