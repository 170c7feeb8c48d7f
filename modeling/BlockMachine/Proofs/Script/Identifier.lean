import BlockMachine.Script.Identifier
import BlockMachine.Proofs.Compiler.Leaf

namespace BlockMachine.Identifier

/-- A word of letters, digits, `_` and `$` that starts with no digit. -/
structure Spelled (cs : List Char) : Prop where
  start : ∃ c rest, cs = c :: rest ∧ c.isDigit = false
  word : ∀ c ∈ cs, isWordChar c = true

instance (cs : List Char) : Decidable (Spelled cs) :=
  decidable_of_iff (cs.head?.any (·.isDigit == false) = true ∧ cs.all isWordChar = true) <| by
    rw [List.all_eq_true]
    constructor
    · rintro ⟨hs, hw⟩
      cases cs with
      | nil => cases hs
      | cons c cs => exact ⟨⟨c, cs, rfl, beq_iff_eq.1 hs⟩, hw⟩
    · rintro ⟨⟨c, cs, rfl, hc⟩, hw⟩
      exact ⟨beq_iff_eq.2 hc, hw⟩

/-- A word that is not reserved. -/
structure Valid (s : String) : Prop extends Spelled s.toList where
  unreserved : s ∉ reserved

theorem Spelled.append {cs ds : List Char} (h : Spelled cs)
    (hd : ∀ c ∈ ds, isWordChar c = true) : Spelled (cs ++ ds) := by
  obtain ⟨⟨c, rest, rfl, hc⟩, hw⟩ := h
  refine ⟨⟨c, rest ++ ds, rfl, hc⟩, ?_⟩
  intro e he
  rcases List.mem_append.1 he with he | he
  · exact hw e he
  · exact hd e he

theorem spelled_withStart {cs : List Char} (h : ∀ c ∈ cs, isWordChar c = true) :
    Spelled (withStart cs) := by
  cases cs with
  | nil => exact ⟨⟨'_', [], rfl, rfl⟩, List.forall_mem_singleton.2 rfl⟩
  | cons c cs =>
    rw [withStart]
    split
    · exact ⟨⟨'_', c :: cs, rfl, by decide⟩, List.forall_mem_cons.2 ⟨by decide, h⟩⟩
    · rename_i hc
      exact ⟨⟨c, cs, rfl, Bool.eq_false_iff.2 hc⟩, h⟩

theorem getLast?_reserved : ∀ w ∈ reserved, w.toList.getLast? ≠ some '_' := by decide +kernel

theorem valid_unreserved {cs : List Char} (h : Spelled cs) :
    Valid (String.ofList (Identifier.unreserved cs)) := by
  rw [Identifier.unreserved]
  split
  · constructor
    · rw [String.toList_ofList]
      exact h.append (List.forall_mem_singleton.2 rfl)
    · intro hm
      apply getLast?_reserved _ hm
      rw [String.toList_ofList, List.getLast?_append]
      rfl
  · rename_i hn
    constructor
    · rw [String.toList_ofList]
      exact h
    · intro hm
      exact hn (List.contains_iff_mem.2 hm)

theorem valid_identifier (name : String) : Valid (identifier name) :=
  valid_unreserved
    (spelled_withStart (Leaf.isWordChar_spell false (Text.trim (Text.chars name.toList))))

theorem toNat_of_isWordChar {c : Char} (h : isWordChar c = true) :
    0x24 ≤ c.toNat ∧ c.toNat < 0x7b := by
  simp only [isWordChar, Char.isAlphanum, Bool.or_eq_true, beq_iff_eq] at h
  rcases h with ((h | h) | rfl) | rfl
  · have := Text.toNat_of_isAlpha h
    omega
  · have := Text.toNat_of_isDigit h
    omega
  · decide
  · decide

end BlockMachine.Identifier
