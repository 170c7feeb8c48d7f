import BlockMachine.Json.Display
import BlockMachine.Proofs.Script.Awaitable
import BlockMachine.Proofs.Text.CodePoint

namespace BlockMachine

theorem Text.trim_of_no_blank {cs : List Char} (h : ∀ c ∈ cs, isBlank c = false) :
    trim cs = cs := by
  have hd {ds : List Char} (h : ∀ c ∈ ds, isBlank c = false) : ds.dropWhile isBlank = ds := by
    cases ds with
    | nil => rfl
    | cons d ds => exact List.dropWhile_cons_of_neg (by simp [h d List.mem_cons_self])
  have hr : ∀ c ∈ cs.reverse, isBlank c = false := by
    intro c hc
    exact h c (List.mem_reverse.1 hc)
  rw [trim, trimLeft, hd h, trimRight, hd hr, List.reverse_reverse]

namespace Identifier

variable {c : Char} {cs : List Char} {s : String}

/-- Letters, `_` and `$`. -/
def isInitial (c : Char) : Bool := c.isAlpha || c == '_' || c == '$'

/-- One letter, `_` or `$`, then these and digits; and the whole is not reserved. -/
structure Proper (s : String) : Prop where
  spelled : ∃ c cs, s.toList = c :: cs ∧ isInitial c = true ∧
    ∀ d ∈ cs, isInitial d = true ∨ d.isDigit = true
  unreserved : s ∉ reserved

theorem isWordChar_iff : isWordChar c = true ↔ isInitial c = true ∨ c.isDigit = true := by
  simp only [isWordChar, isInitial, Char.isAlphanum, Bool.or_eq_true]
  tauto

theorem not_isDigit_of_isInitial (h : isInitial c = true) : c.isDigit = false := by
  rw [isInitial, Bool.or_eq_true, Bool.or_eq_true, beq_iff_eq, beq_iff_eq] at h
  rw [Bool.eq_false_iff]
  intro hd
  rcases h with (h | rfl) | rfl
  · have ha := Text.toNat_of_isAlpha h
    have hc := Text.toNat_of_isDigit hd
    omega
  · cases hd
  · cases hd

theorem proper_iff_valid : Proper s ↔ Valid s := by
  constructor
  · rintro ⟨⟨c, cs, hs, hc, hcs⟩, hr⟩
    refine ⟨⟨⟨c, cs, hs, not_isDigit_of_isInitial hc⟩, ?_⟩, hr⟩
    rw [hs]
    refine List.forall_mem_cons.2 ⟨isWordChar_iff.2 (.inl hc), ?_⟩
    intro d hd
    exact isWordChar_iff.2 (hcs d hd)
  · rintro ⟨⟨⟨c, cs, hs, hc⟩, hw⟩, hr⟩
    rw [hs] at hw
    obtain ⟨hw, hws⟩ := List.forall_mem_cons.1 hw
    have hi : isInitial c = true := by
      rcases isWordChar_iff.1 hw with hi | hd
      · exact hi
      · rw [hc] at hd
        cases hd
    refine ⟨⟨c, cs, hs, hi, ?_⟩, hr⟩
    intro d hd
    exact isWordChar_iff.1 (hws d hd)

theorem spell_of_word (h : ∀ c ∈ cs, isWordChar c = true) : spell false cs = cs := by
  induction cs with
  | nil => rfl
  | cons c cs ih =>
    obtain ⟨hc, hcs⟩ := List.forall_mem_cons.1 h
    have hb := Text.not_isBlank_of_isWordChar hc
    rw [spell, hb, hc, ih hcs]
    rfl

theorem Spelled.withStart_eq (h : Spelled cs) : withStart cs = cs := by
  obtain ⟨⟨c, rest, rfl, hc⟩, -⟩ := h
  rw [withStart, hc]
  rfl

theorem unreserved_of_not_mem (h : s ∉ reserved) : Identifier.unreserved s.toList = s.toList := by
  rw [Identifier.unreserved, String.ofList_toList, if_neg]
  intro hm
  exact h (List.contains_iff_mem.1 hm)

theorem ne_mark_of_isWordChar (h : isWordChar c = true) : c ≠ Text.mark := by
  rintro rfl
  revert h
  decide +kernel

theorem Valid.identifier_eq (h : Valid s) : identifier s = s := by
  have hc : Text.chars s.toList = s.toList :=
    Text.chars_of_not_mem fun c hc => ne_mark_of_isWordChar (h.word c hc)
  have ht : Text.trim s.toList = s.toList := by
    apply Text.trim_of_no_blank
    intro c hc
    exact Text.not_isBlank_of_isWordChar (h.word c hc)
  rw [identifier, ofChars, hc, ht, spell_of_word h.word, h.toSpelled.withStart_eq,
    unreserved_of_not_mem h.unreserved, String.ofList_toList]

theorem identifier_eq_self_iff : identifier s = s ↔ Valid s := by
  constructor
  · intro h
    rw [← h]
    exact valid_identifier s
  · exact Valid.identifier_eq

/-- Whatever a name is given as, its identifier is a proper one and its own identifier, and it is
the name itself exactly if the name is proper already. -/
theorem settles (raw : Json) :
    Proper (identifier raw.display) ∧
      identifier (identifier raw.display) = identifier raw.display ∧
      (identifier raw.display = raw.display ↔ Proper raw.display) := by
  rw [proper_iff_valid, proper_iff_valid]
  have hv := valid_identifier raw.display
  exact ⟨hv, hv.identifier_eq, identifier_eq_self_iff⟩

end Identifier
end BlockMachine
