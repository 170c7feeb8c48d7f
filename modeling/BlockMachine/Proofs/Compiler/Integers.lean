import BlockMachine.Proofs.Compiler.Arithmetic

namespace BlockMachine

variable {ρ : Type} {d : Diagram ρ} {c : Context ρ} {r : ρ} {v : FieldValue} {x : Binary64}
  {n m : Int}

/-- A block that holds a number, and that is not being compiled already. -/
structure HoldsNumber (d : Diagram ρ) (c : Context ρ) (r : ρ) (v : FieldValue) : Prop where
  kind : (d.block r).kind = "math_number"
  field : (d.block r).field? "NUM" = some v
  idle : d.seen r c.active = false

def integerExpression (m : Int) : Expression :=
  ⟨decimalText m, if m < 0 then .unaryNegation else .atomic⟩

namespace HoldsNumber

theorem expression_eq (h : HoldsNumber d c r v) :
    d.generator.expression r c = match ValueRule.numberOf (d.block r) with
      | .ok x => .ok ⟨ValueRule.numeral x ++ "", (ValueRule.numberTemplate x).order⟩ c
      | .error f => .error f c := by
  have hr : ValueRule.ofKind? (d.block r).kind = some .number := by
    rw [h.kind]
    rfl
  have ht : ValueRule.number.template (d.block r) =
      (ValueRule.numberOf (d.block r)).map ValueRule.numberTemplate := rfl
  rw [Diagram.generator, Generator.expression_succ, hr]
  dsimp only
  rw [ht, Compile.visiting, h.idle]
  cases ValueRule.numberOf (d.block r) <;> rfl

theorem expression_of_toInt? (h : HoldsNumber d c r v)
    (hx : ValueRule.numberOf (d.block r) = .ok x) (hm : x.toInt? = some m) :
    d.generator.expression r c = .ok (integerExpression m) c := by
  rw [h.expression_eq, hx]
  dsimp only [ValueRule.numberTemplate]
  rw [Arithmetic.numeral_of_toInt? hm, Binary64.isNegative_eq hm, String.append_empty,
    integerExpression]
  simp only [decide_eq_true_eq]

theorem expression_eq_error_iff (h : HoldsNumber d c r (.int n)) :
    d.generator.expression r c = .error (.defect .numberTooLarge) c ↔
      2 ^ 1024 - 2 ^ 970 ≤ n.natAbs := by
  rw [← Binary64.ofInt?_eq_none_iff]
  cases hx : Binary64.ofInt? n with
  | none =>
    have hn : ValueRule.numberOf (d.block r) = .error (.defect .numberTooLarge) := by
      simp only [ValueRule.numberOf, h.field, hx, Option.elim_none]
    rw [h.expression_eq, hn]
    exact iff_of_true rfl rfl
  | some x =>
    rw [h.expression_eq, Arithmetic.numberOf_int h.field hx]
    exact iff_of_false (by rintro ⟨⟩) (by rintro ⟨⟩)

theorem expression_of_rounded (hm : Binary64.RoundsTo m m)
    (hr : m.natAbs < 2 ^ 1024 - 2 ^ 970) (hv : v = .int m ∨ v = .text (decimalText m))
    (h : HoldsNumber d c r v) : d.generator.expression r c = .ok (integerExpression m) c := by
  obtain ⟨x, m', hx, hn, hround⟩ := Binary64.exists_ofInt? hr
  obtain rfl := hround.eq hm
  rcases hv with rfl | rfl
  · exact h.expression_of_toInt? (Arithmetic.numberOf_int h.field hx) hn
  · have hx' := (Numeral.ofField?_eq_ofInt? hr).trans hx
    exact h.expression_of_toInt? (Arithmetic.numberOf_text h.field hx') hn

/-- An integer is too large exactly from the middle between the largest number and the next power of
two. Any other is compiled to the numeral of its only rounding to 53 significant bits, which is the
integer itself up to `2 ^ 53`. It binds like a negation exactly if it is below zero. The rounding
and its numeral are compiled to the same, in any block. -/
theorem integer_rounded (h : HoldsNumber d c r (.int n)) :
    (d.generator.expression r c = .error (.defect .numberTooLarge) c ↔
      2 ^ 1024 - 2 ^ 970 ≤ n.natAbs) ∧
    (n.natAbs < 2 ^ 1024 - 2 ^ 970 → ∃ m,
      (∀ k, Binary64.RoundsTo n k ↔ k = m) ∧ (n.natAbs ≤ 2 ^ 53 → m = n) ∧
      let e : Expression := ⟨decimalText m, if n < 0 then .unaryNegation else .atomic⟩
      d.generator.expression r c = .ok e c ∧
      ∀ (σ : Type) (d' : Diagram σ) (c' : Context σ) (r' : σ) (v : FieldValue),
        v = .int m ∨ v = .text (decimalText m) → HoldsNumber d' c' r' v →
        d'.generator.expression r' c' = .ok e c') := by
  refine ⟨h.expression_eq_error_iff, fun hn => ?_⟩
  obtain ⟨x, m, hx, hm, hround⟩ := Binary64.exists_ofInt? hn
  have he : integerExpression m =
      ⟨decimalText m, if n < 0 then .unaryNegation else .atomic⟩ := by
    simp only [integerExpression, hround.neg_iff]
  refine ⟨m, fun k => ⟨fun hk => hk.eq hround, ?_⟩, hround.eq_of_le, ?_⟩
  · rintro rfl
    exact hround
  · dsimp only
    rw [← he]
    refine ⟨h.expression_of_toInt? (Arithmetic.numberOf_int h.field hx) hm, ?_⟩
    intro σ d' c' r' v hv h'
    exact expression_of_rounded hround.self (hround.in_range hn) hv h'

end HoldsNumber

/-- A block with a field of any kind for its number. -/
def Tree.ofNumber (v : FieldValue) : Tree :=
  .node { kind := "math_number", fields := [("NUM", v)] } [] [] none

/-- The expression of such a block on its own. -/
def Tree.numberAlone (v : FieldValue) : EStateM.Result Fault (Context Tree) Expression :=
  (diagram [ofNumber v]).generator.expression (ofNumber v) {}

theorem HoldsNumber.ofNumber (v : FieldValue) :
    HoldsNumber (Tree.diagram [.ofNumber v]) {} (.ofNumber v) v :=
  ⟨rfl, rfl, rfl⟩

/-- The integer is halfway between two multiples of two, of which the farther one from zero is the
even one. -/
theorem tie_rounded :
    HoldsNumber (Tree.diagram [.ofNumber (.int (-9007199254740995))]) {}
      (.ofNumber (.int (-9007199254740995))) (.int (-9007199254740995)) ∧
    Int.natAbs (-9007199254740995) < 2 ^ 1024 - 2 ^ 970 ∧
    Tree.numberAlone (.int (-9007199254740995)) =
      .ok ⟨"-9007199254740996", .unaryNegation⟩ {} ∧
    Tree.numberAlone (.int (-9007199254740996)) =
      .ok ⟨"-9007199254740996", .unaryNegation⟩ {} ∧
    Tree.numberAlone (.text "-9007199254740996") =
      .ok ⟨"-9007199254740996", .unaryNegation⟩ {} ∧
    Tree.numberAlone (.int (2 ^ 1024 - 2 ^ 970)) = .error (.defect .numberTooLarge) {} := by
  have hn : Int.natAbs (-9007199254740995) < 2 ^ 1024 - 2 ^ 970 := by decide +kernel
  have hround : Binary64.RoundsTo (-9007199254740995) (-9007199254740996) :=
    ⟨1, -4503599627370498, by decide, by decide, by decide⟩
  have ht : decimalText (-9007199254740996) = "-9007199254740996" := by decide +kernel
  have hl : 2 ^ 1024 - 2 ^ 970 ≤ Int.natAbs (2 ^ 1024 - 2 ^ 970) := by decide +kernel
  obtain ⟨m, hm, -, he, hagain⟩ := (HoldsNumber.integer_rounded (.ofNumber _)).2 hn
  obtain rfl := (hm _).1 hround
  rw [ht] at he hagain
  exact ⟨.ofNumber _, hn, he, hagain _ _ _ _ _ (.inl rfl) (.ofNumber _),
    hagain _ _ _ _ _ (.inr rfl) (.ofNumber _),
    (HoldsNumber.integer_rounded (.ofNumber _)).1.2 hl⟩

end BlockMachine
