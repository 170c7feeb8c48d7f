import BlockMachine.Compiler.Value
import BlockMachine.Proofs.Text.Digits

namespace BlockMachine.Numeral

def isNumeralChar (c : Char) : Bool :=
  c.isDigit || ['-', '+', '.', 'e', 'N', 'a', 'I', 'n', 'f', 'i', 't', 'y'].contains c

theorem isNumeralChar_toDigits (n : Nat) : ∀ c ∈ Nat.toDigits 10 n, isNumeralChar c = true := by
  intro c hc
  rw [isNumeralChar, Text.isDigit_toDigits n c hc, Bool.true_or]

theorem isNumeralChar_decimal (n : Int) : ∀ c ∈ Text.decimal n, isNumeralChar c = true := by
  have hd := isNumeralChar_toDigits n.natAbs
  rw [Text.decimal]
  split
  · exact List.forall_mem_cons.2 ⟨by decide, hd⟩
  · exact hd

theorem isNumeralChar_exponentText (exponent : Int) :
    ∀ c ∈ Binary64.exponentText exponent, isNumeralChar c = true := by
  have hd := isNumeralChar_toDigits exponent.natAbs
  have hs : isNumeralChar (if exponent < 0 then '-' else '+') = true := by
    split <;> decide
  rw [Binary64.exponentText]
  refine List.forall_mem_cons.2 ⟨hs, ?_⟩
  split
  · exact List.forall_mem_cons.2 ⟨by decide, hd⟩
  · exact hd

section Digits

variable {digits : List Char} (h : ∀ c ∈ digits, isNumeralChar c = true)
include h

theorem isNumeralChar_positionalText (whole : Int) :
    ∀ c ∈ Binary64.positionalText digits whole, isNumeralChar c = true := by
  have hz (n : Nat) : ∀ c ∈ List.replicate n '0', isNumeralChar c = true := by
    intro c hc
    rw [List.eq_of_mem_replicate hc]
    decide
  rw [Binary64.positionalText]
  split
  · exact List.forall_mem_cons.2 ⟨by decide, List.forall_mem_cons.2 ⟨by decide,
      List.forall_mem_append.2 ⟨hz _, h⟩⟩⟩
  · refine List.forall_mem_append.2 ⟨List.forall_mem_append.2 ⟨?_, hz _⟩,
      List.forall_mem_cons.2 ⟨by decide, ?_⟩⟩
    · intro c hc
      exact h c (List.mem_of_mem_take hc)
    · split
      · exact List.forall_mem_singleton.2 (by decide)
      · intro c hc
        exact h c (List.mem_of_mem_drop hc)

theorem isNumeralChar_scientificText (exponent : Int) :
    ∀ c ∈ Binary64.scientificText digits exponent, isNumeralChar c = true := by
  have he : ∀ c ∈ 'e' :: Binary64.exponentText exponent, isNumeralChar c = true :=
    List.forall_mem_cons.2 ⟨by decide, isNumeralChar_exponentText exponent⟩
  unfold Binary64.scientificText
  split
  · obtain ⟨hd, hr⟩ := List.forall_mem_cons.1 h
    exact List.forall_mem_append.2 ⟨List.forall_mem_cons.2 ⟨hd,
      List.forall_mem_cons.2 ⟨by decide, hr⟩⟩, he⟩
  · exact List.forall_mem_append.2 ⟨h, he⟩

end Digits

theorem isNumeralChar_magnitudeText (m p : Nat) :
    ∀ c ∈ Binary64.magnitudeText m p, isNumeralChar c = true := by
  rw [Binary64.magnitudeText]
  split
  · exact List.all_eq_true.1 (by decide)
  · have hd := isNumeralChar_toDigits (Binary64.shortest m p).coefficient
    rw [Binary64.Decimal.text]
    split
    · exact isNumeralChar_positionalText hd _
    · exact isNumeralChar_scientificText hd _

theorem isNumeralChar_display (negative : Bool) (m p : Nat) :
    ∀ c ∈ (Binary64.finite negative m p).display.toList, isNumeralChar c = true := by
  rw [Binary64.display, String.toList_ofList]
  split
  · exact List.forall_mem_cons.2 ⟨by decide, isNumeralChar_magnitudeText m p⟩
  · exact isNumeralChar_magnitudeText m p

theorem isNumeralChar_numeral (x : Binary64) :
    ∀ c ∈ (ValueRule.numeral x).toList, isNumeralChar c = true := by
  cases x with
  | nan => exact List.all_eq_true.1 (by decide)
  | infinite negative => cases negative <;> exact List.all_eq_true.1 (by decide)
  | finite negative m p =>
    simp only [ValueRule.numeral]
    split
    · rw [decimalText, String.toList_ofList]
      exact isNumeralChar_decimal _
    · exact isNumeralChar_display negative m p

theorem toNat_lt_of_isNumeralChar {c : Char} (h : isNumeralChar c = true) : c.toNat < 0x80 := by
  rw [isNumeralChar, Bool.or_eq_true, List.contains_iff_mem] at h
  rcases h with h | h
  · have := Text.toNat_of_isDigit h
    omega
  · have hall : ['-', '+', '.', 'e', 'N', 'a', 'I', 'n', 'f', 'i', 't', 'y'].all
        (fun c => c.toNat < 0x80) = true := by decide
    exact of_decide_eq_true (List.all_eq_true.1 hall c h)

end BlockMachine.Numeral
