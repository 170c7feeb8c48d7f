import BlockMachine.Proofs.Number.Characters
import BlockMachine.Proofs.Script.Identifier
import BlockMachine.Proofs.Text.Escapes
import Mathlib.Data.List.TakeWhile

namespace BlockMachine

def isFlat (s : String) : Bool := !s.toList.contains '\n'

def firstWord (cs : List Char) : List Char := cs.takeWhile Identifier.isWordChar

/-- A text that does not start with the word `await`. -/
def startsFree (s : String) : Bool := firstWord s.toList != "await".toList

section Texts

variable {s t : String}

theorem isFlat_iff : isFlat s = true ↔ '\n' ∉ s.toList := by
  simp [isFlat]

theorem isFlat_literal {l : List Char} (h : l.contains '\n' = true) :
    isFlat (String.ofList l) = false := by
  rw [isFlat, String.toList_ofList, h]
  rfl

theorem isFlat_append : isFlat (s ++ t) = (isFlat s && isFlat t) := by
  simp [isFlat, String.toList_append]

theorem isFlat_of_class {p : Char → Bool} (hp : p '\n' = false)
    (h : ∀ c ∈ s.toList, p c = true) : isFlat s = true := by
  rw [isFlat_iff]
  intro hm
  rw [h _ hm] at hp
  cases hp

theorem isFlat_identifier (name : String) : isFlat (identifier name) = true :=
  isFlat_of_class (by decide) (Identifier.valid_identifier name).word

theorem isFlat_numeral (x : Binary64) : isFlat (ValueRule.numeral x) = true :=
  isFlat_of_class (by decide) (Numeral.isNumeralChar_numeral x)

theorem isFlat_quoted (text : String) : isFlat (quoted text) = true := by
  rw [isFlat_iff, quoted, String.toList_ofList]
  intro hm
  exact absurd (Text.le_of_mem_quoteWith _ _ hm) (by decide)

section Words

variable {cs ds : List Char}

theorem firstWord_append_of_head (h : ds.head?.all (!Identifier.isWordChar ·) = true) :
    firstWord (cs ++ ds) = firstWord cs := by
  have hd : ds.takeWhile Identifier.isWordChar = [] := by
    cases ds with
    | nil => rfl
    | cons d ds =>
      apply List.takeWhile_cons_of_neg
      simpa using h
  rw [firstWord, List.takeWhile_append, hd, List.append_nil]
  split
  · rename_i hl
    exact ((List.takeWhile_prefix _).eq_of_length hl).symm
  · rfl

theorem firstWord_append_of_mem {c : Char} (hc : c ∈ cs) (hw : Identifier.isWordChar c = false) :
    firstWord (cs ++ ds) = firstWord cs := by
  rw [firstWord, List.takeWhile_append, if_neg]
  · rfl
  · intro hl
    have he := (List.takeWhile_prefix _).eq_of_length hl
    rw [← he] at hc
    rw [List.mem_takeWhile_imp hc] at hw
    cases hw

theorem firstWord_of_word (h : ∀ c ∈ cs, Identifier.isWordChar c = true) : firstWord cs = cs :=
  List.takeWhile_eq_self_iff.2 h

end Words

theorem firstWord_identifier (name : String) :
    firstWord (identifier name).toList = (identifier name).toList :=
  firstWord_of_word (Identifier.valid_identifier name).word

theorem startsFree_identifier (name : String) : startsFree (identifier name) = true := by
  rw [startsFree, firstWord_identifier, bne_iff_ne]
  intro he
  apply (Identifier.valid_identifier name).unreserved
  rw [String.toList_inj.1 he]
  decide

theorem startsFree_quoted (text : String) : startsFree (quoted text) = true := by
  rw [startsFree, quoted, String.toList_ofList]
  rfl

theorem startsFree_numeral (x : Binary64) : startsFree (ValueRule.numeral x) = true := by
  rw [startsFree, bne_iff_ne]
  intro he
  have hw : 'w' ∈ firstWord (ValueRule.numeral x).toList := by
    rw [he]
    decide
  have hc := Numeral.isNumeralChar_numeral x 'w' ((List.takeWhile_sublist _).subset hw)
  revert hc
  decide

end Texts

end BlockMachine
