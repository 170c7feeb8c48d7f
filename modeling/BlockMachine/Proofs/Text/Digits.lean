import BlockMachine.Text.Blank
import BlockMachine.Text.Digit
import Mathlib.Data.List.Basic
import Mathlib.Data.List.Induction

namespace BlockMachine.Text

theorem isDigit_toDigits (n : Nat) : ∀ c ∈ Nat.toDigits 10 n, c.isDigit = true := fun _ hc =>
  Nat.isDigit_of_mem_toDigits (by decide) (by decide) hc

theorem toNat_of_isDigit {c : Char} (h : c.isDigit = true) : 48 ≤ c.toNat ∧ c.toNat ≤ 57 := by
  simpa [Char.isDigit, UInt32.le_iff_toNat_le] using h

theorem toNat_of_isAlpha {c : Char} (h : c.isAlpha = true) :
    65 ≤ c.toNat ∧ c.toNat ≤ 90 ∨ 97 ≤ c.toNat ∧ c.toNat ≤ 122 := by
  have h : (decide ('A'.val ≤ c.val ∧ c.val ≤ 'Z'.val) ||
      decide ('a'.val ≤ c.val) && decide (c.val ≤ 'z'.val)) = true := h
  simpa [UInt32.le_iff_toNat_le] using h

theorem digitChar_of_isDigit {c : Char} (h : c.isDigit = true) :
    Nat.digitChar (c.toNat - 48) = c := by
  have hc := toNat_of_isDigit h
  apply Char.toNat_inj.1
  rw [Nat.toNat_digitChar_of_lt_ten (by omega)]
  omega

theorem toDigits_ofDigitChars {cs : List Char} (hn : cs ≠ []) (hd : ∀ c ∈ cs, c.isDigit = true)
    (hz : cs.length = 1 ∨ cs.head? ≠ some '0') :
    Nat.toDigits 10 (Nat.ofDigitChars 10 cs 0) = cs := by
  induction cs using List.reverseRecOn with
  | nil => exact absurd rfl hn
  | append_singleton cs c ih =>
    have hc : c.isDigit = true := hd c (List.mem_append_right _ (List.mem_singleton.2 rfl))
    have hlt : c.toNat - 48 < 10 := by
      have := toNat_of_isDigit hc
      omega
    have hlast : Nat.toDigits 10 (c.toNat - 48) = [c] := by
      rw [Nat.toDigits_of_lt_base hlt, digitChar_of_isDigit hc]
    have hv : Nat.ofDigitChars 10 (cs ++ [c]) 0 =
        10 * Nat.ofDigitChars 10 cs 0 + (c.toNat - 48) := by
      rw [Nat.ofDigitChars_append, Nat.ofDigitChars_cons, Nat.ofDigitChars_nil]
      rfl
    rw [hv]
    by_cases he : cs = []
    · subst he
      rw [Nat.ofDigitChars_nil, Nat.mul_zero, Nat.zero_add]
      exact hlast
    · have hh : cs.head? ≠ some '0' := by
        rcases hz with hz | hz
        · exact absurd (List.length_eq_zero_iff.1 (by simpa using hz)) he
        · rwa [List.head?_append_of_ne_nil _ he] at hz
      have ih := ih he (fun c hm => hd c (List.mem_append_left _ hm)) (.inr hh)
      have hp : 0 < Nat.ofDigitChars 10 cs 0 := by
        rw [Nat.pos_iff_ne_zero]
        intro h0
        rw [h0] at ih
        rw [← ih] at hh
        exact hh rfl
      rw [← Nat.toDigits_append_toDigits (by decide) hp hlt, ih, hlast]

theorem digitValue?_of_isDigit {c : Char} (h : c.isDigit = true) :
    digitValue? c = some (c.toNat - '0'.toNat) := by
  have hc := toNat_of_isDigit h
  simp [digitValue?, zeroDigits, hc]

theorem mapM_digitValue? {cs : List Char} (h : ∀ c ∈ cs, c.isDigit = true) :
    cs.mapM digitValue? = some (cs.map fun c => c.toNat - '0'.toNat) := by
  induction cs with
  | nil => rfl
  | cons c cs ih =>
    obtain ⟨hc, h⟩ := List.forall_mem_cons.1 h
    simp [List.mapM_cons, digitValue?_of_isDigit hc, ih h]

theorem dropFinal_of_isDigit {cs : List Char} (h : ∀ c ∈ cs, c.isDigit = true) :
    dropFinal '\n' cs = cs := by
  rw [dropFinal, if_neg]
  intro he
  exact absurd (h _ (List.mem_of_getLast? he)) (by decide)

theorem ofDigits_toDigits (n : Nat) :
    ofDigits ((Nat.toDigits 10 n).map fun c => c.toNat - '0'.toNat) = n := by
  rw [ofDigits, List.foldl_map]
  exact Nat.ofDigitChars_toDigits (by decide) (by decide)

theorem digits?_toDigits (n : Nat) :
    ∃ ds, digits? (dropFinal '\n' (Nat.toDigits 10 n)) = some ds ∧ ofDigits ds = n := by
  have hd := isDigit_toDigits n
  refine ⟨_, ?_, ofDigits_toDigits n⟩
  rw [dropFinal_of_isDigit hd, digits?, mapM_digitValue? hd]
  exact fun h => Nat.toDigits_ne_nil h

end BlockMachine.Text
