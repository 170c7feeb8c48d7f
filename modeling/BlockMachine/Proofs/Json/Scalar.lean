import BlockMachine.Json.Writer
import BlockMachine.Proofs.Number.Characters
import BlockMachine.Proofs.Text.CodePoint

namespace BlockMachine

theorem Text.Scalar.numeral {cs : List Char} (h : ∀ c ∈ cs, Numeral.isNumeralChar c = true) :
    Scalar cs :=
  .of_ascii fun c hc => Numeral.toNat_lt_of_isNumeralChar (h c hc)

namespace Json

/-- No text in the document has half of a surrogate pair. -/
inductive Scalar : Json → Prop
  | null : Scalar .null
  | bool (b : Bool) : Scalar (.bool b)
  | int (n : Int) : Scalar (.int n)
  | float (x : Binary64) : Scalar (.float x)
  | str {s : String} : Text.Scalar s.toList → Scalar (.str s)
  | arr {items : List Json} : (∀ j ∈ items, Scalar j) → Scalar (.arr items)
  | obj {members : Table Json} : (∀ e ∈ members, Text.Scalar e.1.toList) →
    (∀ e ∈ members, Scalar e.2) → Scalar (.obj members)

namespace Scalar

theorem ofText? {s : Option String} (h : ∀ t ∈ s, Text.Scalar t.toList) : (ofText? s).Scalar := by
  cases s with
  | none => exact .null
  | some t => exact .str (h t rfl)

theorem floatText (x : Binary64) : Text.Scalar (floatText x) := by
  cases x with
  | nan => exact .ascii (by decide)
  | infinite negative => cases negative <;> exact .ascii (by decide)
  | finite negative m p => exact .numeral (Numeral.isNumeralChar_display negative m p)

theorem compactItems {items : List Json} (h : ∀ j ∈ items, Text.Scalar (compactText j)) :
    Text.Scalar (compactItems items) := by
  induction items with
  | nil => exact .nil
  | cons j js ih =>
    obtain ⟨hj, hjs⟩ := List.forall_mem_cons.1 h
    cases js with
    | nil => exact hj
    | cons k ks => exact hj.append (.cons (by decide) (ih hjs))

theorem compactMembers {members : Table Json} (hk : ∀ e ∈ members, Text.Scalar e.1.toList)
    (h : ∀ e ∈ members, Text.Scalar (compactText e.2)) : Text.Scalar (compactMembers members) := by
  induction members with
  | nil => exact .nil
  | cons e es ih =>
    obtain ⟨hn, hns⟩ := List.forall_mem_cons.1 hk
    obtain ⟨hj, hjs⟩ := List.forall_mem_cons.1 h
    cases es with
    | nil => exact hn.quoteWith.append (.cons (by decide) hj)
    | cons k ks =>
      exact hn.quoteWith.append (.cons (by decide) (hj.append (.cons (by decide) (ih hns hjs))))

theorem compactText {j : Json} (h : j.Scalar) : Text.Scalar (compactText j) := by
  induction h with
  | null => exact .ascii (by decide)
  | bool b => cases b <;> exact .ascii (by decide)
  | int n => exact .numeral (Numeral.isNumeralChar_decimal n)
  | float x => exact floatText x
  | str h => exact h.quoteWith
  | arr _ ih => exact .cons (by decide) ((compactItems ih).append (.cons (by decide) .nil))
  | obj hk _ ih => exact .cons (by decide) ((compactMembers hk ih).append (.cons (by decide) .nil))

theorem isEncodable_compact {j : Json} (h : j.Scalar) :
    Text.isEncodable j.compact.toList = true := by
  rw [compact, String.toList_ofList]
  exact h.compactText.isEncodable

end Scalar
end Json
end BlockMachine
