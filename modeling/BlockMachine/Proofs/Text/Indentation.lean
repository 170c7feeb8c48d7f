import BlockMachine.Text.Lines

namespace BlockMachine.Text

def startsBlank : List Char → Bool
  | [] => true
  | c :: cs => isBlank c && (isLineBreak c || startsBlank cs)

/-- A line ends behind `c`, when `cs` follows it. -/
def endsLine (c : Char) (cs : List Char) : Bool :=
  isLineBreak c && !(c == '\r' && cs.head? == some '\n')

def marginAfter (margin : List Char) (c : Char) (cs : List Char) : List Char :=
  if endsLine c cs && !startsBlank cs then margin else []

/-- Indentation of a text that goes on in the middle of a line. -/
def continued (margin : List Char) : List Char → List Char
  | [] => []
  | c :: cs => c :: (marginAfter margin c cs ++ continued margin cs)

theorem isBlank_of_isLineBreak {c : Char} (h : isLineBreak c = true) : isBlank c = true := by
  simp only [isLineBreak, inRanges, lineBreakRanges, List.any_cons, List.any_nil, Bool.or_eq_true,
    Bool.and_eq_true, decide_eq_true_eq, Bool.or_false] at h
  simp only [isBlank, inRanges, blankRanges, List.any_cons, List.any_nil, Bool.or_eq_true,
    Bool.and_eq_true, decide_eq_true_eq, Bool.or_false]
  omega

theorem endsLine_eq {c : Char} {cs : List Char} (h : ∀ ds, c = '\r' → cs ≠ '\n' :: ds) :
    endsLine c cs = isLineBreak c := by
  have hp : (c == '\r' && cs.head? == some '\n') = false := by
    rw [Bool.and_eq_false_iff]
    by_cases hc : c = '\r'
    · right
      cases cs with
      | nil => rfl
      | cons d ds =>
        have hd : d ≠ '\n' := fun he => h ds hc (he ▸ rfl)
        simpa using hd
    · left
      simpa using hc
  rw [endsLine, hp, Bool.not_false, Bool.and_true]

theorem startsBlank_of_not_break {c : Char} (h : ¬ isLineBreak c = true) (cs : List Char) :
    startsBlank (c :: cs) = (isBlank c && startsBlank cs) := by
  simp [startsBlank, h]

theorem continued_of_not_break {margin : List Char} {c : Char} (h : ¬ isLineBreak c = true)
    (cs : List Char) : continued margin (c :: cs) = c :: continued margin cs := by
  simp [continued, marginAfter, endsLine, h]

theorem indent_eq_of_lines {margin cs : List Char}
    (hs : startsBlank cs = isAllBlank ((lines cs).head?.getD []))
    (hc : continued margin cs =
      (lines cs).head?.getD [] ++ (lines cs).tail.flatMap (withMargin margin)) :
    indent margin cs = (if startsBlank cs then [] else margin) ++ continued margin cs := by
  rw [hs, hc, indent]
  cases lines cs with
  | nil => rfl
  | cons l ls =>
    rw [List.flatMap_cons, withMargin]
    change _ = (if isAllBlank l then [] else margin) ++ (l ++ ls.flatMap (withMargin margin))
    split
    · rfl
    · exact List.append_assoc _ _ _

theorem continued_eq_lines (margin cs : List Char) :
    startsBlank cs = isAllBlank ((lines cs).head?.getD []) ∧
      continued margin cs =
        (lines cs).head?.getD [] ++ (lines cs).tail.flatMap (withMargin margin) := by
  fun_induction lines cs with
  | case1 => exact ⟨rfl, rfl⟩
  | case2 cs ih =>
    have hm : marginAfter margin '\n' cs ++ continued margin cs = indent margin cs := by
      rw [indent_eq_of_lines ih.1 ih.2, marginAfter, endsLine_eq fun _ h => by cases h]
      cases startsBlank cs <;> rfl
    refine ⟨rfl, ?_⟩
    rw [continued, continued, hm]
    rfl
  | case3 c cs hn hb ih =>
    have hm : marginAfter margin c cs ++ continued margin cs = indent margin cs := by
      rw [indent_eq_of_lines ih.1 ih.2, marginAfter, endsLine_eq hn, hb]
      cases startsBlank cs <;> rfl
    refine ⟨?_, ?_⟩
    · rw [startsBlank, hb, isBlank_of_isLineBreak hb]
      simp [isAllBlank, isBlank_of_isLineBreak hb]
    · rw [continued, hm]
      rfl
  | case4 c cs hn hb hl ih =>
    rw [hl] at ih
    rw [startsBlank_of_not_break hb, continued_of_not_break hb, ih.1, ih.2]
    simp [isAllBlank]
  | case5 c cs hn hb l ls hl ih =>
    rw [hl] at ih
    rw [startsBlank_of_not_break hb, continued_of_not_break hb, ih.1, ih.2]
    simp [isAllBlank]

theorem indent_eq (margin cs : List Char) :
    indent margin cs = (if startsBlank cs then [] else margin) ++ continued margin cs :=
  indent_eq_of_lines (continued_eq_lines margin cs).1 (continued_eq_lines margin cs).2

section Visible

variable {c : Char} (h : isBlank c = false)
include h

theorem not_isLineBreak_of_visible : ¬ isLineBreak c = true := by
  intro hb
  rw [isBlank_of_isLineBreak hb] at h
  cases h

theorem startsBlank_append_visible (cs ds : List Char) :
    startsBlank (cs ++ c :: ds) = startsBlank (cs ++ [c]) := by
  induction cs with
  | nil => simp [startsBlank, h]
  | cons d cs ih => simp only [List.cons_append, startsBlank, ih]

theorem marginAfter_append_visible (margin : List Char) (d : Char) (cs ds : List Char) :
    marginAfter margin d (cs ++ c :: ds) = marginAfter margin d (cs ++ [c]) := by
  have hh : (cs ++ c :: ds).head? = (cs ++ [c]).head? := by
    cases cs <;> rfl
  rw [marginAfter, marginAfter, startsBlank_append_visible h, endsLine, endsLine, hh]

theorem continued_append_visible (margin cs ds : List Char) :
    continued margin (cs ++ c :: ds) = continued margin (cs ++ [c]) ++ continued margin ds := by
  induction cs with
  | nil =>
    have hb := not_isLineBreak_of_visible h
    rw [List.nil_append, List.nil_append, continued_of_not_break hb, continued_of_not_break hb]
    rfl
  | cons d cs ih =>
    rw [List.cons_append, List.cons_append, continued, continued, ih,
      marginAfter_append_visible h, List.cons_append, List.append_assoc]

theorem indent_append_visible (margin cs ds : List Char) :
    indent margin (cs ++ c :: ds) = indent margin (cs ++ [c]) ++ continued margin ds := by
  rw [indent_eq, indent_eq, startsBlank_append_visible h, continued_append_visible h,
    List.append_assoc]

theorem exists_indent_concat (margin cs : List Char) :
    ∃ ds, indent margin (cs ++ [c]) = ds ++ [c] := by
  have hc : ∃ ds, continued margin (cs ++ [c]) = ds ++ [c] := by
    induction cs with
    | nil => exact ⟨[], continued_of_not_break (not_isLineBreak_of_visible h) []⟩
    | cons d cs ih =>
      obtain ⟨ds, hd⟩ := ih
      refine ⟨d :: (marginAfter margin d (cs ++ [c]) ++ ds), ?_⟩
      rw [List.cons_append, continued, hd, List.cons_append, List.append_assoc]
  obtain ⟨ds, hd⟩ := hc
  exact ⟨_, by rw [indent_eq, hd, ← List.append_assoc]⟩

end Visible

theorem no_break_of_all {cs : List Char} (h : cs.all (fun c => !isLineBreak c) = true) :
    ∀ c ∈ cs, isLineBreak c = false :=
  fun c hc => (Bool.not_eq_true' _).mp (List.all_eq_true.1 h c hc)

theorem continued_append_of_no_break {cs : List Char} (h : ∀ c ∈ cs, isLineBreak c = false)
    (margin ds : List Char) : continued margin (cs ++ ds) = cs ++ continued margin ds := by
  induction cs with
  | nil => rfl
  | cons c cs ih =>
    obtain ⟨hc, hcs⟩ := List.forall_mem_cons.1 h
    rw [List.cons_append, continued_of_not_break (by simp [hc]), ih hcs, List.cons_append]

end BlockMachine.Text
