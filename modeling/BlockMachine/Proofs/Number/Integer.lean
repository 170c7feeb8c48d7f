import BlockMachine.Number.Binary64
import Mathlib.Algebra.Ring.Nat

namespace BlockMachine.Binary64

theorem twoPow_eq (n : Nat) : twoPow n = 2 ^ n := Nat.pow_eq

theorem unitsPerOne_eq : ∃ s, unitsPerOne = twoPow s ∧ s + 1 ≤ maxPower :=
  ⟨1074, unitsPerOne.eq_def, by decide⟩

theorem unitsPerOne_pos : 0 < unitsPerOne := by
  obtain ⟨s, hs, _⟩ := unitsPerOne_eq
  rw [hs]
  exact Nat.two_pow_pos s

theorem nearest_mul (n : Nat) {den : Nat} (h : 0 < den) : nearest (n * den) den = n := by
  simp [nearest, Nat.mul_div_cancel n h, h]

theorem roundUnits_exact {m : Nat} (h : m < 2 ^ 53) (s : Nat) :
    ∃ k p, roundUnits (m * 2 ^ s) 1 = (k, p) ∧ k * 2 ^ p = m * 2 ^ s ∧ p ≤ s + 1 := by
  -- Rounding drops no more bits than the `s` zeros at the end.
  have hp : (m * 2 ^ s).log2 - 52 ≤ s := by
    by_cases hm : m * 2 ^ s = 0
    · rw [hm, Nat.log2_zero]
      omega
    · have hlt : m * 2 ^ s < 2 ^ (53 + s) := by
        rw [Nat.pow_add]
        exact Nat.mul_lt_mul_of_pos_right h (Nat.two_pow_pos s)
      have := (Nat.log2_lt hm).2 hlt
      omega
  simp only [roundUnits, twoPow_eq, Nat.div_one, Nat.one_mul]
  generalize (m * 2 ^ s).log2 - 52 = p at hp ⊢
  have he : m * 2 ^ (s - p) * 2 ^ p = m * 2 ^ s := by
    rw [Nat.mul_assoc, ← Nat.pow_add, Nat.sub_add_cancel hp]
  rw [← he, nearest_mul _ (Nat.two_pow_pos p)]
  split
  · rename_i hr
    refine ⟨_, _, rfl, ?_, Nat.add_le_add_right hp 1⟩
    rw [hr, Nat.pow_succ 2 p, ← Nat.mul_assoc, Nat.mul_right_comm, ← Nat.pow_succ]
  · exact ⟨_, _, rfl, rfl, Nat.le_succ_of_le hp⟩

theorem toInt?_finite {negative : Bool} {k p m : Nat} (h : k * 2 ^ p = m * unitsPerOne) :
    (finite negative k p).toInt? = some (if negative then -(m : Int) else m) := by
  rw [toInt?, twoPow_eq, h, if_pos (Nat.mul_mod_left m unitsPerOne),
    Nat.mul_div_cancel m unitsPerOne_pos]

theorem ofInt?_exact {n : Int} (h : n.natAbs < 2 ^ 53) :
    ∃ k p, ofInt? n = some (.finite (n < 0) k p) ∧ k * 2 ^ p = n.natAbs * unitsPerOne := by
  obtain ⟨s, hs, hmax⟩ := unitsPerOne_eq
  obtain ⟨k, p, hr, he, hp⟩ := roundUnits_exact h s
  have hx : ofRatio (n < 0) n.natAbs 1 = .finite (n < 0) k p := by
    rw [ofRatio, hs, twoPow_eq, hr]
    exact if_pos (Nat.le_trans hp hmax)
  refine ⟨k, p, ?_, by rw [hs, twoPow_eq, he]⟩
  rw [ofInt?, hx]
  rfl

theorem toInt?_ofInt? {n : Int} (h : n.natAbs < 2 ^ 53) :
    ∃ x, ofInt? n = some x ∧ x.toInt? = some n := by
  obtain ⟨k, p, hx, he⟩ := ofInt?_exact h
  refine ⟨_, hx, ?_⟩
  rw [toInt?_finite he]
  congr 1
  by_cases hn : n < 0
  · simp only [hn, decide_true, if_true]
    omega
  · simp only [hn, decide_false, Bool.false_eq_true, if_false]
    omega

theorem eq_zero_iff_of_mul_eq {a b c d : Nat} (hb : 0 < b) (hd : 0 < d) (h : a * b = c * d) :
    a = 0 ↔ c = 0 := by
  have hz : a * b = 0 ↔ c * d = 0 := by rw [h]
  rw [Nat.mul_eq_zero, Nat.mul_eq_zero] at hz
  omega

theorem isNegative_eq {x : Binary64} {n : Int} (h : x.toInt? = some n) :
    x.isNegative = decide (n < 0) := by
  cases x with
  | nan => cases h
  | infinite negative => cases h
  | finite negative m p =>
    have hd : m * 2 ^ p % unitsPerOne = 0 := by
      rw [toInt?] at h
      split at h
      · assumption
      · cases h
    obtain ⟨k, hk⟩ := Nat.dvd_of_mod_eq_zero hd
    rw [Nat.mul_comm unitsPerOne] at hk
    rw [toInt?_finite hk] at h
    cases h
    have hz := eq_zero_iff_of_mul_eq (Nat.two_pow_pos p) unitsPerOne_pos hk
    rw [Bool.eq_iff_iff]
    cases negative with
    | false => simp [isNegative]
    | true =>
      simp only [isNegative, Bool.true_and, bne_iff_ne, ne_eq, hz, if_true, decide_eq_true_eq]
      omega

end BlockMachine.Binary64
