import BlockMachine.Proofs.Number.Range
import Mathlib.Algebra.Order.Ring.Int
import Mathlib.Tactic.Ring

namespace BlockMachine.Binary64

/-- The last of the 53 significant bits of `n` has the weight `2 ^ e`. -/
def LastBit (n : Int) (e : Nat) : Prop :=
  (e = 0 ∨ 2 ^ (52 + e) ≤ n.natAbs) ∧ n.natAbs < 2 ^ (53 + e)

instance (n : Int) (e : Nat) : Decidable (LastBit n e) :=
  inferInstanceAs (Decidable (_ ∧ _))

/-- Of the multiples of `u`, the one with the factor `k` is nearest to `n`. Between two that are as
near it is the even one. -/
def Nearest (n k : Int) (u : Nat) : Prop :=
  2 * (n - k * u).natAbs < u ∨ 2 * (n - k * u).natAbs = u ∧ 2 ∣ k

instance (n k : Int) (u : Nat) : Decidable (Nearest n k u) :=
  inferInstanceAs (Decidable (_ ∨ _))

/-- `m` is `n` rounded to 53 significant bits. -/
def RoundsTo (n m : Int) : Prop :=
  ∃ (e : Nat) (k : Int), LastBit n e ∧ Nearest n k (2 ^ e) ∧ m = k * (2 ^ e : Nat)

section

variable {n m m' k k' : Int} {e e' u : Nat}

theorem LastBit.le (h : LastBit n e) (h' : LastBit n e') : e ≤ e' := by
  rcases h.1 with rfl | hn
  · exact Nat.zero_le e'
  · have hlt : 2 ^ (52 + e) < 2 ^ (53 + e') := Nat.lt_of_le_of_lt hn h'.2
    have := (Nat.pow_lt_pow_iff_right (by decide)).1 hlt
    omega

theorem LastBit.eq (h : LastBit n e) (h' : LastBit n e') : e = e' :=
  Nat.le_antisymm (h.le h') (h'.le h)

theorem Nearest.le (hu : 0 < u) (h : Nearest n k u) (h' : Nearest n k' u) : k' ≤ k := by
  by_contra hk
  have hs : (k + 1) * (u : Int) ≤ k' * u :=
    mul_le_mul_of_nonneg_right (by omega) (by omega)
  rw [add_mul, one_mul] at hs
  rcases h with h | ⟨h, hd⟩
  · rcases h' with h' | ⟨h', -⟩ <;> omega
  · rcases h' with h' | ⟨h', hd'⟩
    · omega
    · -- Both are even, so there is another one in between.
      have hs : (k + 2) * (u : Int) ≤ k' * u :=
        mul_le_mul_of_nonneg_right (by omega) (by omega)
      rw [add_mul] at hs
      omega

theorem Nearest.eq (hu : 0 < u) (h : Nearest n k u) (h' : Nearest n k' u) : k = k' :=
  le_antisymm (h'.le hu h) (h.le hu h')

theorem Nearest.neg (h : Nearest n k u) : Nearest (-n) (-k) u := by
  have he : (-n - -k * (u : Int)).natAbs = (n - k * u).natAbs := by
    rw [show -n - -k * (u : Int) = -(n - k * u) by ring, Int.natAbs_neg]
  rw [Nearest, he, Int.dvd_neg]
  exact h

theorem Nearest.self (hu : 0 < u) : Nearest (k * u) k u := by
  left
  rw [sub_self]
  exact hu

theorem RoundsTo.eq (h : RoundsTo n m) (h' : RoundsTo n m') : m = m' := by
  obtain ⟨e, k, he, hk, rfl⟩ := h
  obtain ⟨e', k', he', hk', rfl⟩ := h'
  obtain rfl := he.eq he'
  rw [hk.eq (Nat.two_pow_pos e) hk']

theorem RoundsTo.neg (h : RoundsTo n m) : RoundsTo (-n) (-m) := by
  obtain ⟨e, k, he, hk, rfl⟩ := h
  refine ⟨e, -k, ?_, hk.neg, by ring⟩
  rw [LastBit, Int.natAbs_neg]
  exact he

theorem roundsTo_self (h : LastBit (k * (2 ^ e : Nat)) e) :
    RoundsTo (k * (2 ^ e : Nat)) (k * (2 ^ e : Nat)) :=
  ⟨e, k, h, .self (Nat.two_pow_pos e), rfl⟩

theorem roundsTo_of_lt (h : n.natAbs < 2 ^ 53) : RoundsTo n n := by
  have hn : n = n * (2 ^ 0 : Nat) := by simp
  rw [hn] at h ⊢
  exact roundsTo_self ⟨.inl rfl, h⟩

theorem Nearest.twice_le (h : Nearest n k u) : 2 * (n - k * u).natAbs ≤ u := by
  rcases h with h | h
  · exact Nat.le_of_lt h
  · exact Nat.le_of_eq h.1

theorem Nearest.between {a b : Nat} (hu : 0 < u) (h : Nearest n k u) (ha : a * u ≤ n.natAbs)
    (hb : n.natAbs < b * u) : a ≤ k.natAbs ∧ k.natAbs ≤ b := by
  have hk : (k * u).natAbs = k.natAbs * u := by rw [Int.natAbs_mul, Int.natAbs_natCast]
  have hd := h.twice_le
  constructor
  · by_contra hlt
    have := Nat.mul_le_mul_right u (show k.natAbs + 1 ≤ a by omega)
    rw [Nat.add_mul, Nat.one_mul] at this
    omega
  · by_contra hlt
    have := Nat.mul_le_mul_right u (show b + 1 ≤ k.natAbs by omega)
    rw [Nat.add_mul, Nat.one_mul] at this
    omega

theorem natAbs_mul_two_pow (k : Int) (e : Nat) :
    (k * (2 ^ e : Nat)).natAbs = k.natAbs * 2 ^ e := by
  rw [Int.natAbs_mul, Int.natAbs_natCast]

theorem RoundsTo.self (h : RoundsTo n m) : RoundsTo m m := by
  obtain ⟨e, k, ⟨he, hlt⟩, hk, rfl⟩ := h
  have hu := Nat.two_pow_pos e
  rw [Nat.pow_add] at hlt
  rcases he with rfl | hge
  · have hn : n = k * (2 ^ 0 : Nat) := by
      rcases hk with hk | ⟨hk, -⟩ <;> omega
    rw [← hn]
    exact roundsTo_of_lt (by omega)
  · rw [Nat.pow_add] at hge
    obtain ⟨hlow, hhigh⟩ := hk.between hu hge hlt
    rcases Nat.lt_or_eq_of_le hhigh with hhigh | hhigh
    · apply roundsTo_self
      rw [LastBit, natAbs_mul_two_pow, Nat.pow_add, Nat.pow_add]
      exact ⟨.inr (Nat.mul_le_mul_right _ hlow), Nat.mul_lt_mul_of_pos_right hhigh hu⟩
    · -- The carry has made one bit more, and the last bits are zeros.
      obtain ⟨j, rfl⟩ : (2 : Int) ∣ k := by omega
      have hj : 2 * j * (2 ^ e : Nat) = j * (2 ^ (e + 1) : Nat) := by
        push_cast
        ring
      rw [hj]
      apply roundsTo_self
      have hn : j.natAbs = 2 ^ 52 := by omega
      rw [LastBit, natAbs_mul_two_pow, hn, Nat.pow_add 2 52, Nat.pow_add 2 53]
      have := Nat.two_pow_pos (e + 1)
      exact ⟨.inr (Nat.le_refl _), by omega⟩

theorem RoundsTo.neg_iff (h : RoundsTo n m) : m < 0 ↔ n < 0 := by
  obtain ⟨e, k, ⟨he, -⟩, hk, rfl⟩ := h
  have hu := Nat.two_pow_pos e
  have hd := hk.twice_le
  rcases he with rfl | hge
  · omega
  · rw [Nat.pow_add] at hge
    omega

theorem roundsTo_of_le (hn : n.natAbs ≤ 2 ^ 53) : RoundsTo n n := by
  rcases Nat.lt_or_eq_of_le hn with hn | hn
  · exact roundsTo_of_lt hn
  · obtain ⟨j, rfl⟩ : (2 : Int) ∣ n := by omega
    have hj : 2 * j = j * (2 ^ 1 : Nat) := by ring
    rw [hj] at hn ⊢
    apply roundsTo_self
    rw [LastBit, hn]
    decide

theorem RoundsTo.eq_of_le (h : RoundsTo n m) (hn : n.natAbs ≤ 2 ^ 53) : m = n :=
  h.eq (roundsTo_of_le hn)

/-- Below the middle between a power of two and the last multiple of `2 ^ (s + 1)` in front of it,
nothing is rounded up to the power. -/
theorem RoundsTo.lt_of_lt {s : Nat} (h : RoundsTo n m) (hn : n.natAbs < (2 ^ 54 - 1) * 2 ^ s) :
    m.natAbs < (2 ^ 54 - 1) * 2 ^ s := by
  obtain ⟨e, k, ⟨he, hlt⟩, hk, rfl⟩ := h
  have hu := Nat.two_pow_pos e
  have hs := Nat.two_pow_pos s
  rw [natAbs_mul_two_pow]
  rcases Nat.lt_or_ge s e with hse | hse
  · have hlast : 2 ^ (52 + e) < 2 ^ (54 + s) := by
      have hge := he.resolve_left (by omega)
      rw [Nat.pow_add 2 54]
      omega
    obtain rfl : e = s + 1 := by
      have := (Nat.pow_lt_pow_iff_right (by decide)).1 hlast
      omega
    have hpow : 2 ^ (s + 1) = 2 * 2 ^ s := Nat.pow_succ'
    have hd := hk.twice_le
    have hm := natAbs_mul_two_pow k (s + 1)
    rw [hpow] at hd hm ⊢
    have hk : k.natAbs < 2 ^ 53 := by
      by_contra hge
      have := Nat.mul_le_mul_right (2 * 2 ^ s) (Nat.le_of_not_lt hge)
      omega
    have := Nat.mul_le_mul_right (2 * 2 ^ s) (show k.natAbs + 1 ≤ 2 ^ 53 by omega)
    rw [Nat.add_mul, Nat.one_mul] at this
    omega
  · rw [Nat.pow_add] at hlt
    have hk := (hk.between hu (a := 0) (by omega) hlt).2
    have := Nat.mul_le_mul hk (Nat.pow_le_pow_right (show 0 < 2 by decide) hse)
    omega

theorem RoundsTo.in_range (h : RoundsTo n m) (hn : n.natAbs < 2 ^ 1024 - 2 ^ 970) :
    m.natAbs < 2 ^ 1024 - 2 ^ 970 := by
  have hb : 2 ^ 1024 - 2 ^ 970 = (2 ^ 54 - 1) * 2 ^ 970 := by
    rw [Nat.sub_mul, ← Nat.pow_add, Nat.one_mul]
  rw [hb] at hn ⊢
  exact h.lt_of_lt hn

theorem nearest_near (a : Nat) {d : Nat} (hd : 0 < d) : Nearest a (nearest a d : Nat) d := by
  have hm := Nat.div_add_mod' a d
  have hr := Nat.mod_lt a hd
  simp only [Nearest, nearest]
  generalize a / d = low at hm ⊢
  generalize a % d = rest at hm hr ⊢
  have hlow : (a : Int) - (low : Nat) * (d : Nat) = rest := by
    rw [← hm]
    push_cast
    ring
  have hhigh : (a : Int) - (low + 1 : Nat) * (d : Nat) = rest - d := by
    rw [← hm]
    push_cast
    ring
  split
  · rw [hlow]
    omega
  · split
    · rw [hhigh]
      omega
    · rcases Nat.mod_two_eq_zero_or_one low with hp | hp
      · rw [hp, Nat.add_zero, hlow]
        omega
      · rw [hp, hhigh]
        omega

theorem nearest_mul_mul (a d : Nat) {c : Nat} (hc : 0 < c) :
    nearest (a * c) (d * c) = nearest a d := by
  have hl : 2 * (a % d * c) < d * c ↔ 2 * (a % d) < d := by
    rw [← Nat.mul_assoc]
    exact Nat.mul_lt_mul_right hc
  have hg : d * c < 2 * (a % d * c) ↔ d < 2 * (a % d) := by
    rw [← Nat.mul_assoc]
    exact Nat.mul_lt_mul_right hc
  simp only [nearest, Nat.mul_div_mul_right _ _ hc, Nat.mul_mod_mul_right, hl, hg]

theorem log2_mul_two_pow {a : Nat} (ha : a ≠ 0) (s : Nat) : (a * 2 ^ s).log2 = a.log2 + s := by
  have hs := Nat.two_pow_pos s
  have hz : a * 2 ^ s ≠ 0 := Nat.mul_ne_zero ha hs.ne'
  rw [Nat.log2_eq_iff hz, Nat.add_right_comm, Nat.pow_add, Nat.pow_add]
  exact ⟨Nat.mul_le_mul_right _ (Nat.log2_self_le ha),
    Nat.mul_lt_mul_of_pos_right Nat.lt_log2_self hs⟩

theorem roundUnits_rounds (a s : Nat) :
    ∃ k p b : Nat, roundUnits (a * 2 ^ s) 1 = (k, p) ∧ k * 2 ^ p = b * 2 ^ s ∧ RoundsTo a b := by
  rcases Nat.lt_or_ge a (2 ^ 53) with ha | ha
  · obtain ⟨k, p, hr, he, -⟩ := roundUnits_exact ha s
    exact ⟨k, p, a, hr, he, roundsTo_of_lt (by omega)⟩
  · have hz : a ≠ 0 := by omega
    obtain ⟨e, hlog⟩ : ∃ e, a.log2 = 52 + e := by
      have := (Nat.le_log2 hz).2 ha
      exact ⟨a.log2 - 52, by omega⟩
    have hp : (a * 2 ^ s).log2 - 52 = e + s := by
      rw [log2_mul_two_pow hz]
      omega
    have hround : RoundsTo a (nearest a (2 ^ e) * 2 ^ e : Nat) := by
      refine ⟨e, nearest a (2 ^ e), ⟨.inr ?_, ?_⟩, nearest_near a (Nat.two_pow_pos e), ?_⟩
      · rw [← hlog]
        exact Nat.log2_self_le hz
      · rw [show 53 + e = a.log2 + 1 by omega]
        exact Nat.lt_log2_self
      · push_cast
        rfl
    simp only [roundUnits, twoPow_eq, Nat.div_one, Nat.one_mul]
    rw [hp, Nat.pow_add, nearest_mul_mul _ _ (Nat.two_pow_pos s)]
    split
    · rename_i hc
      refine ⟨_, _, _, rfl, ?_, hround⟩
      rw [hc]
      ring
    · refine ⟨_, _, _, rfl, ?_, hround⟩
      ring

theorem exists_ofInt? (h : n.natAbs < 2 ^ 1024 - 2 ^ 970) :
    ∃ x m, ofInt? n = some x ∧ x.toInt? = some m ∧ RoundsTo n m := by
  obtain ⟨s, hs, -⟩ := unitsPerOne_eq
  rw [twoPow_eq] at hs
  obtain ⟨k, p, b, hr, he, hb⟩ := roundUnits_rounds n.natAbs s
  rw [← hs] at hr he
  cases hx : ofInt? n with
  | none =>
    have := (ofInt?_eq_none_iff n).1 hx
    omega
  | some x =>
    rw [ofInt?, ofRatio, hr] at hx
    dsimp only at hx
    split at hx
    · obtain rfl := Option.some.inj hx
      refine ⟨_, _, rfl, toInt?_finite he, ?_⟩
      by_cases hn : n < 0
      · have habs : (n.natAbs : Int) = -n := by omega
        rw [habs] at hb
        rw [decide_eq_true hn, if_pos rfl, ← neg_neg n]
        exact hb.neg
      · have habs : (n.natAbs : Int) = n := by omega
        rw [habs] at hb
        rw [decide_eq_false hn]
        exact hb
    · cases hx

end

end BlockMachine.Binary64
