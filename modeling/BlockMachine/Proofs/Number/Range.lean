import BlockMachine.Proofs.Number.Integer

namespace BlockMachine.Binary64

theorem nearest_le (a den : Nat) : nearest a den ≤ a / den + 1 := by
  simp only [nearest]
  split
  · omega
  · split <;> omega

theorem nearest_eq_succ_iff {a h m : Nat} (hh : 0 < h) (hm : m % 2 = 1)
    (ha : a < (m + 1) * (2 * h)) : nearest a (2 * h) = m + 1 ↔ m * (2 * h) + h ≤ a := by
  have hd := Nat.div_add_mod' a (2 * h)
  have hr := Nat.mod_lt a (show 0 < 2 * h by omega)
  have hq : a / (2 * h) ≤ m := Nat.lt_succ_iff.1 ((Nat.div_lt_iff_lt_mul (by omega)).2 ha)
  rcases Nat.lt_or_eq_of_le hq with hq | hq
  · have hlt : a < m * (2 * h) := (Nat.div_lt_iff_lt_mul (by omega)).1 hq
    have := nearest_le a (2 * h)
    omega
  · simp only [nearest]
    rw [hq] at hd ⊢
    generalize m * (2 * h) = x at hd ⊢
    split
    · omega
    · split <;> omega

theorem roundUnits_le_iff (n s : Nat) :
    (roundUnits n 1).2 ≤ s + 1 ↔ n < (2 ^ 53 - 1) * (2 * 2 ^ s) + 2 ^ s := by
  have hs : 0 < 2 ^ s := Nat.two_pow_pos s
  have hpow : 2 ^ (s + 1) = 2 * 2 ^ s := Nat.pow_succ'
  have h53 : 2 ^ (s + 54) = 2 ^ 53 * (2 * 2 ^ s) := by
    rw [← hpow, ← Nat.pow_add, show 53 + (s + 1) = s + 54 by omega]
  have h52 : 2 ^ (s + 53) = 2 ^ 52 * (2 * 2 ^ s) := by
    rw [← hpow, ← Nat.pow_add, show 52 + (s + 1) = s + 53 by omega]
  simp only [roundUnits, twoPow_eq, Nat.div_one, Nat.one_mul]
  rcases Nat.lt_or_ge n (2 ^ (s + 53)) with hn | hn
  · -- There is room for the carry.
    have hl : n.log2 < s + 53 := by
      rcases Nat.eq_zero_or_pos n with rfl | hp
      · rw [Nat.log2_zero]
        omega
      · exact (Nat.log2_lt (Nat.ne_of_gt hp)).2 hn
    split <;> omega
  · have hp : n ≠ 0 := by
      have := Nat.two_pow_pos (s + 53)
      omega
    have hge : s + 53 ≤ n.log2 := (Nat.le_log2 hp).2 hn
    rcases Nat.lt_or_ge n (2 ^ (s + 54)) with hlt | hlt
    · -- Only the carry can make the power too large.
      have hl : n.log2 - 52 = s + 1 := by
        have := (Nat.log2_lt hp).2 hlt
        omega
      have hc := nearest_eq_succ_iff (a := n) (m := 2 ^ 53 - 1) hs (by decide) (by omega)
      rw [hl, hpow]
      split
      · rename_i hm
        have := hc.1 hm
        omega
      · rename_i hm
        have := mt hc.2 hm
        omega
    · have hl : s + 54 ≤ n.log2 := (Nat.le_log2 hp).2 hlt
      split <;> omega

theorem ofInt?_eq_none_iff (n : Int) : ofInt? n = none ↔ 2 ^ 1024 - 2 ^ 970 ≤ n.natAbs := by
  have hr : ofInt? n = none ↔ ¬ (roundUnits (n.natAbs * unitsPerOne) 1).2 ≤ maxPower := by
    rw [ofInt?, ofRatio]
    split
    · simpa [finite?]
    · rename_i h
      exact ⟨fun _ => h, fun _ => rfl⟩
  have hb : (2 ^ 53 - 1) * (2 * 2 ^ 2044) + 2 ^ 2044 = (2 ^ 1024 - 2 ^ 970) * unitsPerOne := by
    rw [unitsPerOne, twoPow_eq]
    decide +kernel
  rw [hr, maxPower, roundUnits_le_iff _ 2044, Nat.not_lt, hb]
  exact Nat.mul_le_mul_right_iff unitsPerOne_pos

end BlockMachine.Binary64
