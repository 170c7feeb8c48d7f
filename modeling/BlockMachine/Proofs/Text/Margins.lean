import BlockMachine.Proofs.Text.Indentation
import Mathlib.Data.List.Basic

namespace BlockMachine

namespace Text

/-- The line breaks of a text; a carriage return and the line feed behind it are one. -/
def lineBreaks : List Char → List (List Char)
  | [] => []
  | '\r' :: '\n' :: cs => ['\r', '\n'] :: lineBreaks cs
  | c :: cs => if isLineBreak c then [c] :: lineBreaks cs else lineBreaks cs

/-- A line without its margin; a blank line has none. -/
def withoutMargin? (margin line : List Char) : Option (List Char) :=
  if isAllBlank line then some line
  else if margin.isPrefixOf line then some (line.drop margin.length)
  else none

/-- The text whose lines stand behind margins here. -/
def outdent? (margin cs : List Char) : Option (List Char) :=
  ((lines cs).mapM (withoutMargin? margin)).map List.flatten

section Lines

variable {c : Char} {cs l : List Char} {ls : List (List Char)}

theorem flatten_lines (cs : List Char) : (lines cs).flatten = cs := by
  fun_induction lines cs with
  | case1 => rfl
  | case2 cs ih =>
    rw [List.flatten_cons, ih]
    rfl
  | case3 c cs _ _ ih =>
    rw [List.flatten_cons, ih]
    rfl
  | case4 c cs _ _ hl ih =>
    rw [hl] at ih
    rw [← ih]
    rfl
  | case5 c cs _ _ l ls hl ih =>
    rw [hl] at ih
    rw [List.flatten_cons, List.cons_append, ← List.flatten_cons, ih]

theorem eq_nil_of_lines (h : lines cs = []) : cs = [] := by
  rw [← flatten_lines cs, h]
  rfl

theorem lines_break (hb : isLineBreak c = true) (hn : ∀ ds, c = '\r' → cs ≠ '\n' :: ds) :
    lines (c :: cs) = [c] :: lines cs := by
  rw [lines, if_pos hb]
  exact hn

theorem ne_return_of_not_break (h : ¬ isLineBreak c = true) : c ≠ '\r' := by
  rintro rfl
  exact h (by decide)

theorem lines_of_not_break (h : ¬ isLineBreak c = true) (hl : lines cs = l :: ls) :
    lines (c :: cs) = (c :: l) :: ls := by
  rw [lines, if_neg h, hl]
  intro _ hc
  exact absurd hc (ne_return_of_not_break h)

theorem lines_singleton (c : Char) : lines [c] = [[c]] := by
  rw [lines]
  · split <;> rfl
  · intro _ _ h
    cases h

theorem lines_append_of_no_break {cs : List Char} (h : ∀ c ∈ cs, isLineBreak c = false)
    {ds : List Char} (hl : lines ds = l :: ls) : lines (cs ++ ds) = (cs ++ l) :: ls := by
  induction cs with
  | nil => exact hl
  | cons c cs ih =>
    obtain ⟨hc, hcs⟩ := List.forall_mem_cons.1 h
    exact lines_of_not_break (by simp [hc]) (ih hcs)

theorem lines_append {cs : List Char} (h : cs = [] ∨ cs.getLast? = some '\n') (ds : List Char) :
    lines (cs ++ ds) = lines cs ++ lines ds := by
  have hlast {c : Char} {cs : List Char} (h : c :: cs = [] ∨ (c :: cs).getLast? = some '\n') :
      (c :: cs).getLast? = some '\n' := h.resolve_left (List.cons_ne_nil c cs)
  have hrest {c : Char} {cs : List Char} (h : c :: cs = [] ∨ (c :: cs).getLast? = some '\n') :
      cs = [] ∨ cs.getLast? = some '\n' := by
    cases cs with
    | nil => exact .inl rfl
    | cons d cs => exact .inr (List.getLast?_cons_cons ▸ hlast h)
  fun_induction lines cs with
  | case1 => rfl
  | case2 cs ih =>
    rw [List.cons_append, List.cons_append, lines, ih (hrest (hrest h))]
    rfl
  | case3 c cs hn hb ih =>
    -- A carriage return is not the last character, so what follows it is as before.
    have hn' : ∀ es, c = '\r' → cs ++ ds ≠ '\n' :: es := by
      intro es hc he
      cases cs with
      | nil =>
        have h := hlast h
        rw [hc] at h
        cases h
      | cons d cs =>
        obtain ⟨rfl, -⟩ := List.cons.inj he
        exact hn cs hc rfl
    rw [List.cons_append, lines_break hb hn', ih (hrest h)]
    rfl
  | case4 c cs _ hb hl =>
    have h := hlast h
    rw [eq_nil_of_lines hl] at h
    cases h
    exact absurd (by decide) hb
  | case5 c cs _ hb l ls hl ih =>
    have ih := ih (hrest h)
    rw [hl] at ih
    exact lines_of_not_break hb ih

theorem lineBreaks_append_of_no_break {cs : List Char} (h : ∀ c ∈ cs, isLineBreak c = false)
    (ds : List Char) : lineBreaks (cs ++ ds) = lineBreaks ds := by
  induction cs with
  | nil => rfl
  | cons c cs ih =>
    obtain ⟨hc, hcs⟩ := List.forall_mem_cons.1 h
    rw [List.cons_append, lineBreaks, hc, ih hcs]
    · rfl
    · intro _ hr
      exact absurd hr (ne_return_of_not_break (by simp [hc]))

end Lines

section Line

variable {line : List Char}

theorem not_isAllBlank_append (h : ¬ isAllBlank line = true) (margin : List Char) :
    ¬ isAllBlank (margin ++ line) = true := by
  rw [isAllBlank, List.all_append, Bool.and_eq_true]
  intro hb
  exact h hb.2

theorem withMargin_withMargin (outer margin line : List Char) :
    withMargin outer (withMargin margin line) = withMargin (outer ++ margin) line := by
  rw [withMargin.eq_def margin, withMargin.eq_def (outer ++ margin)]
  split
  · rename_i hl
    exact if_pos hl
  · rename_i hl
    rw [withMargin, if_neg (not_isAllBlank_append hl margin), List.append_assoc]

theorem withoutMargin?_withMargin (margin line : List Char) :
    withoutMargin? margin (withMargin margin line) = some line := by
  rw [withMargin]
  split
  · rename_i hl
    exact if_pos hl
  · rename_i hl
    have hp : margin.isPrefixOf (margin ++ line) = true :=
      List.isPrefixOf_iff_prefix.2 (List.prefix_append margin line)
    rw [withoutMargin?, if_neg (not_isAllBlank_append hl margin), if_pos hp, List.drop_left]

end Line

section Margin

variable {margin : List Char} {c : Char} {cs : List Char}

theorem continued_break (hb : isLineBreak c = true) (hn : ∀ ds, c = '\r' → cs ≠ '\n' :: ds) :
    continued margin (c :: cs) = c :: indent margin cs := by
  rw [continued, marginAfter, endsLine_eq hn, hb, indent_eq]
  cases startsBlank cs <;> rfl

theorem continued_return_feed :
    continued margin ('\r' :: '\n' :: cs) = '\r' :: '\n' :: indent margin cs := by
  have hf : continued margin ('\n' :: cs) = '\n' :: indent margin cs :=
    continued_break (by decide) fun _ h => absurd h (by decide)
  rw [continued, hf]
  rfl

variable (hm : ∀ c ∈ margin, isLineBreak c = false)
include hm

theorem no_break_front (cs : List Char) :
    ∀ c ∈ (if startsBlank cs then [] else margin), isLineBreak c = false := by
  split
  · intro c hc
    cases hc
  · exact hm

theorem indent_ne_feed (h : ∀ ds, c = '\r' → cs ≠ '\n' :: ds) :
    ∀ ds, c = '\r' → indent margin cs ≠ '\n' :: ds := by
  intro ds hc he
  have hf := no_break_front hm cs
  rw [indent_eq] at he
  generalize (if startsBlank cs then [] else margin) = front at he hf
  cases front with
  | nil =>
    cases cs with
    | nil => cases he
    | cons d cs =>
      obtain ⟨rfl, -⟩ := List.cons.inj he
      exact h cs hc rfl
  | cons d front =>
    obtain ⟨rfl, -⟩ := List.cons.inj he
    exact absurd (hf _ List.mem_cons_self) (by decide)

theorem lines_indent_of_continued
    (h : ∀ l ls, lines cs = l :: ls →
      lines (continued margin cs) = l :: ls.map (withMargin margin)) :
    lines (indent margin cs) = (lines cs).map (withMargin margin) := by
  cases hl : lines cs with
  | nil =>
    rw [indent, hl]
    rfl
  | cons l ls =>
    have hs : startsBlank cs = isAllBlank l := by
      rw [(continued_eq_lines margin cs).1, hl]
      rfl
    have hf := lines_append_of_no_break (no_break_front hm cs) (h l ls hl)
    rw [indent_eq, hf, hs, List.map_cons, withMargin]
    cases isAllBlank l <;> rfl

theorem lines_continued {l : List Char} {ls : List (List Char)} (h : lines cs = l :: ls) :
    lines (continued margin cs) = l :: ls.map (withMargin margin) := by
  fun_induction lines cs generalizing l ls with
  | case1 => cases h
  | case2 cs ih =>
    cases h
    rw [continued_return_feed, lines, lines_indent_of_continued hm fun _ _ => ih]
  | case3 c cs hn hb ih =>
    cases h
    rw [continued_break hb hn, lines_break hb (indent_ne_feed hm hn),
      lines_indent_of_continued hm fun _ _ => ih]
  | case4 c cs hn hb hl =>
    cases h
    rw [eq_nil_of_lines hl, continued_of_not_break hb]
    exact lines_singleton c
  | case5 c cs hn hb l' ls' hl ih =>
    cases h
    rw [continued_of_not_break hb]
    exact lines_of_not_break hb (ih hl)

theorem lines_indent (cs : List Char) :
    lines (indent margin cs) = (lines cs).map (withMargin margin) :=
  lines_indent_of_continued hm fun _ _ => lines_continued hm

theorem lineBreaks_indent_eq_continued (cs : List Char) :
    lineBreaks (indent margin cs) = lineBreaks (continued margin cs) := by
  rw [indent_eq, lineBreaks_append_of_no_break (no_break_front hm cs)]

theorem lineBreaks_continued (cs : List Char) :
    lineBreaks (continued margin cs) = lineBreaks cs := by
  fun_induction lineBreaks cs with
  | case1 => rfl
  | case2 cs ih => rw [continued_return_feed, lineBreaks, lineBreaks_indent_eq_continued hm, ih]
  | case3 c cs hn hb ih =>
    rw [continued_break hb hn, lineBreaks, if_pos hb, lineBreaks_indent_eq_continued hm, ih]
    exact indent_ne_feed hm hn
  | case4 c cs hn hb ih =>
    rw [continued_of_not_break hb, lineBreaks, if_neg hb, ih]
    intro _ hr
    exact absurd hr (ne_return_of_not_break hb)

theorem lineBreaks_indent (cs : List Char) : lineBreaks (indent margin cs) = lineBreaks cs := by
  rw [lineBreaks_indent_eq_continued hm, lineBreaks_continued hm]

theorem indent_indent (outer cs : List Char) :
    indent outer (indent margin cs) = indent (outer ++ margin) cs := by
  rw [indent, lines_indent hm, List.flatMap_map]
  exact congrArg (List.flatMap · (lines cs)) (funext (withMargin_withMargin outer margin))

theorem outdent?_indent (cs : List Char) : outdent? margin (indent margin cs) = some cs := by
  have hall (ls : List (List Char)) :
      (ls.map (withMargin margin)).mapM (withoutMargin? margin) = some ls := by
    induction ls with
    | nil => rfl
    | cons l ls ih =>
      rw [List.map_cons, List.mapM_cons, withoutMargin?_withMargin, ih]
      rfl
  rw [outdent?, lines_indent hm, hall, Option.map_some, flatten_lines]

end Margin

theorem indent_append {cs : List Char} (h : cs = [] ∨ cs.getLast? = some '\n')
    (margin ds : List Char) : indent margin (cs ++ ds) = indent margin cs ++ indent margin ds := by
  rw [indent, lines_append h, List.flatMap_append]
  rfl

end Text

/-- The text whose lines stand behind `margin` in `code`. -/
def outdentBy? (margin code : String) : Option String :=
  (Text.outdent? margin.toList code.toList).map String.ofList

/-- Indentation goes on anew behind a line feed; a second margin is put in front of the first; and a
margin of spaces can be taken away again, with every line break where and what it was. -/
theorem indentBy_laws {a p : String} (ha : a = "" ∨ a.toList.getLast? = some '\n')
    (hp : ∀ x ∈ p.toList, x = ' ') (q b c : String) :
    indentBy q (a ++ b) = indentBy q a ++ indentBy q b ∧
      indentBy q (indentBy p c) = indentBy (q ++ p) c ∧
      outdentBy? p (indentBy p c) = some c ∧
      Text.lineBreaks (indentBy p c).toList = Text.lineBreaks c.toList := by
  have ha : a.toList = [] ∨ a.toList.getLast? = some '\n' := ha.imp_left (congrArg String.toList)
  have hm : ∀ x ∈ p.toList, Text.isLineBreak x = false := by
    intro x hx
    rw [hp x hx]
    decide
  simp only [indentBy, outdentBy?, String.toList_append, String.toList_ofList]
  refine ⟨?_, ?_, ?_, ?_⟩
  · rw [Text.indent_append ha, String.ofList_append]
  · rw [Text.indent_indent hm]
  · rw [Text.outdent?_indent hm, Option.map_some, String.ofList_toList]
  · exact Text.lineBreaks_indent hm c.toList

/-- Three kinds of line breaks, a blank line between them, and a last line without one. -/
theorem indentBy_mixed_breaks :
    (" x\r\n".toList.getLast? = some '\n' ∧ ∀ x ∈ "  ".toList, x = ' ') ∧
      indentBy "\t" (" x\r\n" ++ "\ny") = indentBy "\t" " x\r\n" ++ indentBy "\t" "\ny" ∧
      indentBy "\t" (indentBy "  " "a\r\n \u2028b\r\x0bc") =
        indentBy "\t  " "a\r\n \u2028b\r\x0bc" ∧
      outdentBy? "  " (indentBy "  " "a\r\n \u2028b\r\x0bc") = some "a\r\n \u2028b\r\x0bc" ∧
      Text.lineBreaks (indentBy "  " "a\r\n \u2028b\r\x0bc").toList =
        [['\r', '\n'], ['\u2028'], ['\r'], ['\x0b']] := by
  have ha : " x\r\n".toList.getLast? = some '\n' := by decide
  have hall : "  ".toList.all (· == ' ') = true := by decide
  have hp : ∀ x ∈ "  ".toList, x = ' ' := by
    intro x hx
    exact beq_iff_eq.1 (List.all_eq_true.1 hall x hx)
  obtain ⟨h₁, h₂, h₃, h₄⟩ :=
    indentBy_laws (.inr ha) hp "\t" "\ny" "a\r\n \u2028b\r\x0bc"
  exact ⟨⟨ha, hp⟩, h₁, h₂, h₃, h₄.trans (by decide)⟩

end BlockMachine
