import BlockMachine.Number.Display
import BlockMachine.Proofs.Number.Integer
import Mathlib.Data.List.Basic
import Mathlib.Tactic.IntervalCases

namespace BlockMachine

theorem head?_toDigits {n : Nat} (h : 0 < n) : (Nat.toDigits 10 n).head? ≠ some '0' := by
  induction n using Nat.strongRecOn with
  | _ n ih =>
    by_cases hn : n < 10
    · rw [Nat.toDigits_of_lt_base hn]
      revert h
      interval_cases n <;> decide
    · have hd : 0 < n / 10 := Nat.div_pos (Nat.le_of_not_lt hn) (by decide)
      rw [Nat.toDigits_of_base_le (by decide) (Nat.le_of_not_lt hn), List.head?_append_of_ne_nil]
      · exact ih (n / 10) (by omega) hd
      · exact Nat.toDigits_ne_nil

namespace Binary64

theorem readsBack_zero {mantissa power num d scale : Nat} (hm : 0 < mantissa) (hs : 0 < scale)
    (hn : num = mantissa * twoPow power * scale) :
    readsBack mantissa power num d scale 0 = false := by
  have hg : 0 < twoPow power * scale := by
    rw [twoPow_eq]
    exact Nat.mul_pos (Nat.two_pow_pos power) hs
  have hle : twoPow power * scale ≤ num := by
    rw [hn, Nat.mul_assoc]
    exact Nat.le_mul_of_pos_left _ hm
  have hz : 0 < num := by omega
  simp only [readsBack, Nat.zero_mul, Nat.sub_zero, if_pos hz]
  generalize twoPow power * scale = gap at hg hle ⊢
  have hb : (if mantissa = twoPow 52 ∧ power ≠ 0 then gap else 2 * gap) ≤ 2 * gap := by
    split <;> omega
  generalize (if mantissa = twoPow 52 ∧ power ≠ 0 then gap else 2 * gap) = below at hb ⊢
  split
  · exact decide_eq_false (by omega)
  · exact decide_eq_false (by omega)

theorem le_nearest (num den : Nat) : num / den ≤ nearest num den := by
  simp only [nearest]
  split
  · exact Nat.le_refl _
  · split <;> omega

theorem coefficient_pos_of_decimalAt? {mantissa power : Nat} {exponent : Int} {d : Decimal}
    (hm : 0 < mantissa) (h : decimalAt? mantissa power exponent = some d) : 0 < d.coefficient := by
  have hs : 0 < Nat.pow 10 (-exponent).toNat := Nat.pow_pos (by decide)
  rw [decimalAt?] at h
  generalize hscale : Nat.pow 10 (-exponent).toNat = scale at h hs
  generalize hden : unitsPerOne * Nat.pow 10 exponent.toNat = den at h
  generalize hnum : mantissa * twoPow power * scale = num at h
  have hz := readsBack_zero (d := den) hm hs hnum.symm
  -- The lower neighbour is not zero, if it reads back.
  have hl (ht : readsBack mantissa power num den scale (num / den) = true) : 0 < num / den := by
    apply Nat.pos_of_ne_zero
    intro he
    rw [he, hz] at ht
    cases ht
  split at h
  · rename_i ht _
    cases h
    exact Nat.lt_of_lt_of_le (hl ht) (le_nearest num den)
  · rename_i ht _
    cases h
    exact hl ht
  · cases h
    exact Nat.succ_pos _
  · cases h

theorem scanDown_coefficient {mantissa power : Nat} (hm : 0 < mantissa) (steps : Nat) (top : Int) :
    0 < (scanDown mantissa power steps top).coefficient ∨
      scanDown mantissa power steps top = ⟨0, top - steps⟩ := by
  induction steps generalizing top with
  | zero => exact .inr (by simp [scanDown])
  | succ steps ih =>
    rw [scanDown]
    cases hd : decimalAt? mantissa power top with
    | some d => exact .inl (coefficient_pos_of_decimalAt? hm hd)
    | none =>
      refine (ih (top - 1)).imp_right fun he => ?_
      dsimp only
      rw [he]
      congr 1
      omega

theorem shortest_coefficient {mantissa : Nat} (hm : 0 < mantissa) (power : Nat) :
    0 < (shortest mantissa power).coefficient ∨ shortest mantissa power = ⟨0, -1075⟩ := by
  rw [shortest]
  refine (scanDown_coefficient hm _ _).imp_right fun he => ?_
  rw [he]
  congr 1
  omega

end Binary64
end BlockMachine
