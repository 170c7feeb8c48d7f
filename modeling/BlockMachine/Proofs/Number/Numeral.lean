import BlockMachine.Number.Numeral
import BlockMachine.Proofs.Number.Range
import BlockMachine.Proofs.Text.Digits
import BlockMachine.Text.Digit
import Mathlib.Data.Nat.Digits.Defs

namespace BlockMachine.Numeral

/-- A sign or a digit. -/
def IsSigned (c : Char) : Prop := c = '-' ∨ c.isDigit = true

theorem isSigned_decimal (m : Int) : ∀ c ∈ Text.decimal m, IsSigned c := by
  have hd : ∀ c ∈ Nat.toDigits 10 m.natAbs, IsSigned c := fun c hc =>
    .inr (Text.isDigit_toDigits _ c hc)
  rw [Text.decimal]
  split
  · exact List.forall_mem_cons.2 ⟨.inl rfl, hd⟩
  · exact hd

theorem IsSigned.not_margin {c : Char} (h : IsSigned c) : isMargin c = false := by
  rcases h with rfl | h
  · decide
  · have hc := Text.toNat_of_isDigit h
    have hb : Text.isBlank c = false := by
      simp [Text.isBlank, Text.inRanges, Text.blankRanges]
      omega
    rw [isMargin, hb, Bool.false_and]

theorem IsSigned.ne_underscore {c : Char} (h : IsSigned c) : c ≠ '_' := by
  rcases h with rfl | h
  · decide
  · rintro rfl
    cases h

section

variable {cs : List Char}

theorem dropWhile_margin (h : ∀ c ∈ cs, isMargin c = false) : cs.dropWhile isMargin = cs := by
  cases cs with
  | nil => rfl
  | cons c cs => exact List.dropWhile_cons_of_neg (by simp [h c List.mem_cons_self])

theorem dropMargins_eq (h : ∀ c ∈ cs, isMargin c = false) : dropMargins cs = cs := by
  have hr : ∀ c ∈ cs.reverse, isMargin c = false := fun c hc => h c (List.mem_reverse.1 hc)
  rw [dropMargins, dropWhile_margin h, dropWhile_margin hr, List.reverse_reverse]

theorem groupsDigits_of_ne (isDigit : Char → Bool) (before : Bool) (h : ∀ c ∈ cs, c ≠ '_') :
    groupsDigits isDigit before cs = true := by
  induction cs generalizing before with
  | nil => rfl
  | cons c cs ih =>
    obtain ⟨hc, hcs⟩ := List.forall_mem_cons.1 h
    rw [groupsDigits]
    · exact ih _ hcs
    · intro _ _ he
      exact absurd he hc
    · intro he
      exact absurd he hc

theorem takeDigits_eq (h : ∀ c ∈ cs, c.isDigit = true) :
    takeDigits Text.digitValue? cs = (cs.map fun c => c.toNat - '0'.toNat, []) := by
  induction cs with
  | nil => rfl
  | cons c cs ih =>
    obtain ⟨hc, hcs⟩ := List.forall_mem_cons.1 h
    rw [takeDigits, Text.digitValue?_of_isDigit hc, ih hcs]
    rfl

theorem toLower_of_isDigit {c : Char} (h : c.isDigit = true) : c.toLower = c := by
  have hc := Text.toNat_of_isDigit h
  refine dif_neg fun hu => ?_
  have hl : 65 ≤ c.toNat := hu.1
  omega

theorem word?_of_digits (negative : Bool) (hn : cs ≠ []) (h : ∀ c ∈ cs, c.isDigit = true) :
    word? negative cs = none := by
  have hne (word : String) (hw : word.toList.head?.any Char.isDigit = false) :
      String.ofList (cs.map Char.toLower) ≠ word := by
    rintro rfl
    obtain ⟨c, cs, rfl⟩ := List.exists_cons_of_ne_nil hn
    have hc := h c List.mem_cons_self
    rw [String.toList_ofList, List.map_cons, List.head?_cons, Option.any_some,
      toLower_of_isDigit hc, hc] at hw
    cases hw
  rw [word?, if_neg, if_neg]
  · exact hne "nan" (by decide)
  · rintro (he | he)
    · exact hne "inf" (by decide) he
    · exact hne "infinity" (by decide) he

theorem takeSign_of_digits (h : ∀ c ∈ cs, c.isDigit = true) : takeSign cs = (false, cs) := by
  cases cs with
  | nil => rfl
  | cons c cs =>
    have hc := h c List.mem_cons_self
    rw [takeSign]
    · rintro _ ⟨⟩
      cases hc
    · rintro _ ⟨⟩
      cases hc

end

theorem nearest_of_length (negative : Bool) {a : Nat} (h : (Nat.toDigits 10 a).length ≤ 400) :
    nearest negative a 0 = .ofRatio negative a 1 := by
  rcases Nat.eq_zero_or_pos a with rfl | ha
  · rw [Binary64.ofRatio, Nat.zero_mul]
    rfl
  · have hlow : ¬ (a = 0 ∨ (0 : Int) + (Nat.toDigits 10 a).length < -400) := by omega
    have hhigh : ¬ (400 < (0 : Int) + (Nat.toDigits 10 a).length) := by omega
    rw [nearest, if_neg hlow, if_neg hhigh]
    exact congrArg (Binary64.ofRatio negative · 1) (Nat.mul_one a)

theorem decimal?_toDigits (negative : Bool) {a : Nat} (h : a < 10 ^ 400) :
    decimal? Text.digitValue? negative (Nat.toDigits 10 a) = some (.ofRatio negative a 1) := by
  have hl : (Nat.toDigits 10 a).length ≤ 400 := Nat.toDigits_length 10 a 400 (by decide) h
  rw [decimal?, takeDigits_eq (Text.isDigit_toDigits a)]
  have he : ((Nat.toDigits 10 a).map fun c => c.toNat - '0'.toNat).isEmpty = false := by
    rw [List.isEmpty_map, List.isEmpty_eq_false_iff]
    exact Nat.toDigits_ne_nil
  dsimp only [takeFraction, exponent?]
  rw [he, Bool.false_and, if_neg Bool.false_ne_true, List.append_nil,
    Text.ofDigits_toDigits]
  exact congrArg some (nearest_of_length negative hl)

theorem ofField?_decimalText {m : Int} (h : m.natAbs < 10 ^ 400) :
    ofField? (decimalText m) = some (.ofRatio (m < 0) m.natAbs 1) := by
  have hs := isSigned_decimal m
  have hu : ∀ c ∈ Text.decimal m, c ≠ '_' := fun c hc => (hs c hc).ne_underscore
  have hf : (Text.decimal m).filter (· != '_') = Text.decimal m :=
    List.filter_eq_self.2 fun c hc => bne_iff_ne.2 (hu c hc)
  have hd := Text.isDigit_toDigits m.natAbs
  have hsign : takeSign (Text.decimal m) = (decide (m < 0), Nat.toDigits 10 m.natAbs) := by
    rw [Text.decimal]
    split
    · rename_i hm
      rw [decide_eq_true hm]
      rfl
    · rename_i hm
      rw [decide_eq_false hm]
      exact takeSign_of_digits hd
  rw [ofField?, decimalText, String.toList_ofList,
    dropMargins_eq fun c hc => (hs c hc).not_margin, groupsDigits_of_ne _ _ hu, if_pos rfl, hf,
    read?, hsign]
  dsimp only
  rw [word?_of_digits _ Nat.toDigits_ne_nil hd]
  exact decimal?_toDigits _ h

theorem ofField?_eq_ofInt? {m : Int} (h : m.natAbs < 2 ^ 1024 - 2 ^ 970) :
    ofField? (decimalText m) = Binary64.ofInt? m := by
  have hlt : m.natAbs < 10 ^ 400 := by
    have hle : 2 ^ 1024 ≤ 10 ^ 400 := by decide +kernel
    omega
  have hn : Binary64.ofInt? m ≠ none := by
    rw [ne_eq, Binary64.ofInt?_eq_none_iff]
    omega
  rw [ofField?_decimalText hlt]
  rw [Binary64.ofInt?] at hn ⊢
  cases hx : Binary64.ofRatio (m < 0) m.natAbs 1 with
  | finite negative k p => rfl
  | nan | infinite =>
    rw [hx] at hn
    exact absurd rfl hn

end BlockMachine.Numeral
