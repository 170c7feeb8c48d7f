import BlockMachine.Proofs.Script.Identifier
import BlockMachine.Proofs.Script.Nesting
import BlockMachine.Proofs.Text.CodePoint

namespace BlockMachine

open Nesting

/-- A text of the compiler's own, in ASCII, from one stack of open brackets to another. -/
structure Fixed (before after : List Char) (s : String) : Prop where
  shifts : Shifts before after s
  ascii : ∀ c ∈ s.toList, c.toNat < 0x80

/-- What is asked of the texts of a script. A text leads from one stack of open brackets to another;
`word` is what an author may have typed into a field. -/
structure Style where
  word : String → Prop
  leads : List Char → List Char → String → Prop
  silent : word ""
  fixed {a b : List Char} {s : String} : Fixed a b s → leads a b s
  append {a b c : List Char} {s t : String} : leads a b s → leads b c t → leads a c (s ++ t)
  frame {s : String} : leads [] [] s → ∀ a, leads a a s
  quoted {s : String} : word s → leads [] [] (quoted s)
  indented {s : String} : leads [] [] s → leads [] [] (indented s)
  trimmed {s : String} : leads [] [] s → leads [] [] (trimmed s)
  bareRecord {s : String} : leads [] [] s → leads [] [] (Fragment.bareRecord s)

namespace Fixed

variable {a b c : List Char} {s t : String}

instance (a b : List Char) (s : String) : Decidable (Fixed a b s) :=
  decidable_of_iff (Shifts a b s ∧ s.toList.all (fun c => c.toNat < 0x80) = true)
    ⟨fun h => ⟨h.1, fun c hc => of_decide_eq_true (List.all_eq_true.1 h.2 c hc)⟩, fun h =>
      ⟨h.shifts, List.all_eq_true.2 fun c hc => decide_eq_true (h.ascii c hc)⟩⟩

theorem literal {l : List Char}
    (h : scan ⟨.code, a⟩ l = some ⟨.code, b⟩ ∧ l.all (fun c => c.toNat < 0x80) = true) :
    Fixed a b (String.ofList l) := by
  refine ⟨?_, ?_⟩
  · rw [Shifts, String.toList_ofList]
    exact h.1
  · rw [String.toList_ofList]
    exact fun c hc => of_decide_eq_true (List.all_eq_true.1 h.2 c hc)

theorem append (hs : Fixed a b s) (ht : Fixed b c t) : Fixed a c (s ++ t) := by
  refine ⟨hs.shifts.append ht.shifts, ?_⟩
  rw [String.toList_append]
  exact List.forall_mem_append.2 ⟨hs.ascii, ht.ascii⟩

theorem frame (h : Fixed [] [] s) (a : List Char) : Fixed a a s :=
  ⟨Nested.shifts h.shifts a, h.ascii⟩

theorem identifier (name : String) : Fixed [] [] (identifier name) :=
  have hw := (Identifier.valid_identifier name).word
  ⟨scan_plain fun c hc => sign_of_isWordChar (hw c hc), fun c hc =>
    Nat.lt_trans (Identifier.toNat_of_isWordChar (hw c hc)).2 (by decide)⟩

theorem numeral (x : Binary64) : Fixed [] [] (ValueRule.numeral x) :=
  have hn := Numeral.isNumeralChar_numeral x
  ⟨scan_plain fun c hc => sign_of_class (by decide) (hn c hc), fun c hc =>
    Numeral.toNat_lt_of_isNumeralChar (hn c hc)⟩

end Fixed

namespace Style

variable (φ : Style)

def Accepts (s : String) : Prop := φ.leads [] [] s

namespace Accepts

variable {φ} {a : List Char} {s t l r : String}

theorem fixed (h : Fixed [] [] s) : φ.Accepts s := φ.fixed h

theorem append (hs : φ.Accepts s) (ht : φ.Accepts t) : φ.Accepts (s ++ t) := φ.append hs ht

theorem behind (hl : Fixed [] [] l) (h : φ.Accepts s) : φ.Accepts (l ++ s) :=
  (Accepts.fixed hl).append h

theorem before (h : φ.Accepts s) (hr : Fixed [] [] r) : φ.Accepts (s ++ r) :=
  h.append (.fixed hr)

theorem enclose (h : φ.Accepts s) (hl : φ.leads [] a l) (hr : Fixed a [] r) :
    φ.Accepts (l ++ s ++ r) :=
  φ.append (φ.append hl (φ.frame h a)) (φ.fixed hr)

theorem intercalate {sep : String} {ss : List String} (hsep : Fixed [] [] sep)
    (h : ∀ s ∈ ss, φ.Accepts s) : φ.Accepts (sep.intercalate ss) := by
  induction ss with
  | nil => exact .fixed (by decide : Fixed [] [] "")
  | cons s ss ih =>
    obtain ⟨hs, hss⟩ := List.forall_mem_cons.1 h
    cases ss with
    | nil =>
      rw [String.intercalate_singleton]
      exact hs
    | cons t ss =>
      rw [String.intercalate_cons_cons]
      exact (hs.before hsep).append (ih hss)

theorem join {ss : List String} (h : ∀ s ∈ ss, φ.Accepts s) : φ.Accepts (String.join ss) := by
  induction ss with
  | nil => exact .fixed (by decide)
  | cons s ss ih =>
    obtain ⟨hs, hss⟩ := List.forall_mem_cons.1 h
    rw [String.join_cons]
    exact hs.append (ih hss)

theorem indented (h : φ.Accepts s) : φ.Accepts (BlockMachine.indented s) := φ.indented h

theorem trimmed (h : φ.Accepts s) : φ.Accepts (BlockMachine.trimmed s) := φ.trimmed h

theorem closeScope (h : φ.Accepts s) : φ.Accepts (Fragment.closeScope s) := by
  rw [Fragment.closeScope]
  split
  · exact h.trimmed.before (by decide)
  · exact h

theorem awaited (h : φ.Accepts s) : φ.Accepts (Fragment.awaited s) := by
  rw [Fragment.awaited]
  split
  · exact (Accepts.behind (by decide) h.trimmed).before (by decide)
  · exact h.closeScope

theorem joinRecords {ss : List String} (h : ∀ s ∈ ss, φ.Accepts s) :
    φ.Accepts (Fragment.joinRecords ss) := by
  apply intercalate (by decide)
  intro s hs
  obtain ⟨t, ht, rfl⟩ := List.mem_map.1 (List.mem_filter.1 hs).1
  exact φ.bareRecord (h t ht)

theorem within {e : Expression} (h : φ.Accepts e.text) (context : Order) :
    φ.Accepts (e.within context).text := by
  rw [Expression.within]
  split
  · exact h.enclose (a := [')']) (φ.fixed (by decide)) (by decide)
  · exact h

end Accepts

/-- Brackets and literals are closed, whatever the author's words are. -/
def nesting : Style where
  word _ := True
  leads := Shifts
  silent := trivial
  fixed h := h.shifts
  append hs ht := hs.append ht
  frame h := Nested.shifts h
  quoted {s} _ := nested_quoted s
  indented h := Nested.indented h
  trimmed h := Nested.trimmed h
  bareRecord h := Nested.bareRecord h

/-- Texts of characters, if the author's words are. -/
def scalar : Style where
  word s := Text.Scalar s.toList
  leads _ _ s := Text.Scalar s.toList
  silent := .nil
  fixed h := .of_ascii h.ascii
  append {_ _ _ s t} hs ht := by
    rw [String.toList_append]
    exact hs.append ht
  frame h _ := h
  quoted {s} h := by
    rw [BlockMachine.quoted, String.toList_ofList]
    exact h.quoteWith
  indented {s} h := by
    rw [BlockMachine.indented, indentBy, String.toList_ofList]
    exact h.indent (.ascii (by decide))
  trimmed {s} h := by
    rw [BlockMachine.trimmed, String.toList_ofList]
    exact h.trim
  bareRecord {s} h := by
    rw [Fragment.bareRecord, String.toList_ofList]
    exact h.trim.dropFinal (by decide)

end Style
end BlockMachine
