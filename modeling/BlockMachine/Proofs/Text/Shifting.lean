import BlockMachine.Proofs.Text.Indentation
import BlockMachine.Proofs.Text.Literal

namespace BlockMachine.Text

/-- The characters that are written inside quotes as they are, if they are blank. -/
def isRaw (c : Char) : Bool := decide (0x20 ≤ c.toNat)

def isRawBreak (c : Char) : Bool := isRaw c && isLineBreak c

/-- Nothing but blanks stands before the next line break inside quotes. -/
def runsBlank : List Char → Bool
  | [] => false
  | c :: cs => isRaw c && isBlank c && (isLineBreak c || runsBlank cs)

/-- The margin behind each line break inside quotes, unless the line that begins there is blank. -/
def shifted (margin : List Char) : List Char → List Char
  | [] => []
  | c :: cs => c :: ((if isRawBreak c && !runsBlank cs then margin else []) ++ shifted margin cs)

/-- What is read from the literal of a text that was indented so many times. -/
def atDepth (depth : Nat) (cs : List Char) : List Char := shifted (.replicate (2 * depth) ' ') cs

theorem isRawBreak_iff {c : Char} :
    isRawBreak c = true ↔ c = '\u0085' ∨ c = '\u2028' ∨ c = '\u2029' := by
  have hn (d : Char) : c = d ↔ c.toNat = d.toNat := Char.toNat_inj.symm
  simp only [hn, isRawBreak, isRaw, isLineBreak, inRanges, lineBreakRanges, List.any_cons,
    List.any_nil, Bool.and_eq_true, Bool.or_eq_true, decide_eq_true_eq, Bool.or_false]
  change _ ↔ c.toNat = 0x85 ∨ c.toNat = 0x2028 ∨ c.toNat = 0x2029
  omega

theorem not_isLineBreak_unitEscape {n : Nat} (h : n < 0x20) :
    ∀ d ∈ unitEscape n, isLineBreak d = false := by
  have hall : ∀ k : Fin 0x20, (unitEscape k).all (fun d => !isLineBreak d) = true := by decide
  exact no_break_of_all (hall ⟨n, h⟩)

theorem isBlank_backslash : isBlank '\\' = false := by decide

theorem escape_of_not_raw {c : Char} (h : (isRaw c && isBlank c) = false) :
    (∃ d ds, escape c = d :: ds ∧ isBlank d = false) ∧ ∀ d ∈ escape c, isLineBreak d = false := by
  have he := escaped c
  generalize escape c = e at he ⊢
  cases he with
  | @short e he =>
    refine ⟨⟨_, _, rfl, isBlank_backslash⟩, ?_⟩
    have hall : ('\\' :: shortEscapes).all (fun d => !isLineBreak d) = true := by decide
    intro d hd
    refine no_break_of_all hall d ?_
    rcases List.mem_cons.1 hd with rfl | hd
    · exact List.mem_cons_self
    · rw [List.mem_singleton.1 hd]
      exact List.mem_cons_of_mem _ he
  | unit hc => exact ⟨⟨_, _, rfl, isBlank_backslash⟩, not_isLineBreak_unitEscape hc⟩
  | plain hc =>
    have hb : isBlank c = false := by simpa [isRaw, hc] using h
    refine ⟨⟨c, [], rfl, hb⟩, ?_⟩
    intro d hd
    rw [List.mem_singleton.1 hd]
    exact Bool.eq_false_iff.2 (not_isLineBreak_of_visible hb)

theorem escape_of_raw {c : Char} (h : (isRaw c && isBlank c) = true) : escape c = [c] := by
  obtain ⟨hr, hb⟩ := Bool.and_eq_true_iff.1 h
  have hc : 0x20 ≤ c.toNat := of_decide_eq_true hr
  have he := escaped c
  generalize escape c = e at he ⊢
  cases he with
  | short he hr =>
    simp only [shortEscapes, List.mem_cons, List.not_mem_nil, or_false] at he
    rcases he with rfl | rfl | rfl | rfl | rfl | rfl | rfl <;> cases hr <;> revert h <;> decide
  | unit hc' => omega
  | plain => rfl

theorem startsBlank_quoted (cs rest : List Char) :
    startsBlank (cs.flatMap escape ++ '"' :: rest) = runsBlank cs := by
  induction cs with
  | nil => rfl
  | cons c cs ih =>
    rw [List.flatMap_cons, List.append_assoc, runsBlank]
    cases h : isRaw c && isBlank c with
    | true =>
      have hb := (Bool.and_eq_true_iff.1 h).2
      rw [escape_of_raw h, List.singleton_append, startsBlank, hb, ih]
    | false =>
      obtain ⟨⟨d, ds, he, hd⟩, -⟩ := escape_of_not_raw h
      rw [he, List.cons_append, startsBlank, hd]
      rfl

theorem flatMap_escape_spaces {margin : List Char} (h : ∀ c ∈ margin, c = ' ') :
    margin.flatMap escape = margin := by
  induction margin with
  | nil => rfl
  | cons c cs ih =>
    obtain ⟨rfl, hcs⟩ := List.forall_mem_cons.1 h
    rw [List.flatMap_cons, ih hcs]
    rfl

theorem continued_quoted {margin : List Char} (h : ∀ c ∈ margin, c = ' ') (cs rest : List Char) :
    continued margin (cs.flatMap escape ++ '"' :: rest) =
      (shifted margin cs).flatMap escape ++ '"' :: continued margin rest := by
  induction cs with
  | nil => exact continued_of_not_break (by decide) rest
  | cons c cs ih =>
    rw [List.flatMap_cons, List.append_assoc, shifted, List.flatMap_cons, List.flatMap_append,
      List.append_assoc, List.append_assoc, ← ih]
    cases hb : isRaw c && isBlank c with
    | true =>
      have hr := (Bool.and_eq_true_iff.1 hb).1
      have hne : ∀ ds, c = '\r' → cs.flatMap escape ++ '"' :: rest ≠ '\n' :: ds := by
        rintro ds rfl
        exact absurd hr (by decide)
      rw [escape_of_raw hb, List.singleton_append, List.singleton_append, continued, marginAfter,
        startsBlank_quoted, endsLine_eq hne, isRawBreak, hr, Bool.true_and]
      split
      · rw [flatMap_escape_spaces h]
      · rfl
    | false =>
      have hraw : isRawBreak c = false := by
        cases hl : isLineBreak c with
        | true => rwa [isRawBreak, hl, Bool.and_true, ← Bool.and_true (isRaw c),
            ← isBlank_of_isLineBreak hl]
        | false => rw [isRawBreak, hl, Bool.and_false]
      rw [hraw, continued_append_of_no_break (escape_of_not_raw hb).2]
      rfl

section Spaces

variable {blanks : List Char} (h : ∀ c ∈ blanks, c = ' ')
include h

theorem runsBlank_append_spaces (cs : List Char) : runsBlank (blanks ++ cs) = runsBlank cs := by
  induction blanks with
  | nil => rfl
  | cons c blanks ih =>
    obtain ⟨rfl, hb⟩ := List.forall_mem_cons.1 h
    rw [List.cons_append, runsBlank, ih hb]
    have h1 : (isRaw ' ' && isBlank ' ') = true := by decide
    have h2 : isLineBreak ' ' = false := by decide
    rw [h1, h2]
    simp

theorem shifted_append_spaces (margin cs : List Char) :
    shifted margin (blanks ++ cs) = blanks ++ shifted margin cs := by
  induction blanks with
  | nil => rfl
  | cons c blanks ih =>
    obtain ⟨rfl, hb⟩ := List.forall_mem_cons.1 h
    have hn : isRawBreak ' ' = false := by decide
    rw [List.cons_append, shifted, ih hb, hn]
    rfl

theorem runsBlank_shifted (cs : List Char) : runsBlank (shifted blanks cs) = runsBlank cs := by
  induction cs with
  | nil => rfl
  | cons c cs ih =>
    rw [shifted, runsBlank, runsBlank]
    split
    · rw [runsBlank_append_spaces h, ih]
    · rw [List.nil_append, ih]

theorem shifted_shifted (margin cs : List Char) :
    shifted margin (shifted blanks cs) = shifted (margin ++ blanks) cs := by
  induction cs with
  | nil => rfl
  | cons c cs ih =>
    rw [shifted, shifted, shifted, ← ih]
    by_cases hc : (isRawBreak c && !runsBlank cs) = true
    · rw [if_pos hc, if_pos hc, runsBlank_append_spaces h, runsBlank_shifted h, if_pos hc,
        shifted_append_spaces h, List.append_assoc]
    · rw [if_neg hc, if_neg hc, List.nil_append, runsBlank_shifted h, if_neg hc]

end Spaces

theorem eq_space_of_mem_replicate {n : Nat} : ∀ c ∈ List.replicate n ' ', c = ' ' :=
  fun _ hc => List.eq_of_mem_replicate hc

theorem shifted_atDepth (depth : Nat) (cs : List Char) :
    shifted [' ', ' '] (atDepth depth cs) = atDepth (depth + 1) cs := by
  have hr :
      [' ', ' '] ++ List.replicate (2 * depth) ' ' = List.replicate (2 * (depth + 1)) ' ' := by
    rw [Nat.mul_succ, List.replicate_succ, List.replicate_succ]
    rfl
  rw [atDepth, shifted_shifted eq_space_of_mem_replicate, hr, atDepth]

/-- The number of places where a margin is put. -/
def shifts : List Char → Nat
  | [] => 0
  | c :: cs => (if isRawBreak c && !runsBlank cs then 1 else 0) + shifts cs

theorem length_shifted (margin cs : List Char) :
    (shifted margin cs).length = cs.length + shifts cs * margin.length := by
  induction cs with
  | nil => simp [shifted, shifts]
  | cons c cs ih =>
    rw [shifted, shifts, List.length_cons, List.length_append, ih, List.length_cons]
    split
    · rw [Nat.add_mul]
      omega
    · simp
      omega

theorem exists_rawBreak_of_runsBlank {cs : List Char} (h : runsBlank cs = true) :
    ∃ c ∈ cs, isRawBreak c = true := by
  induction cs with
  | nil => cases h
  | cons c cs ih =>
    rw [runsBlank, Bool.and_eq_true, Bool.and_eq_true, Bool.or_eq_true] at h
    obtain ⟨⟨hr, -⟩, hl | hs⟩ := h
    · exact ⟨c, List.mem_cons_self, by rw [isRawBreak, hr, hl]; rfl⟩
    · obtain ⟨d, hd, hb⟩ := ih hs
      exact ⟨d, List.mem_cons_of_mem c hd, hb⟩

theorem shifts_pos {cs : List Char} (h : ∃ c ∈ cs, isRawBreak c = true) : 0 < shifts cs := by
  induction cs with
  | nil => simp at h
  | cons c cs ih =>
    rw [shifts]
    by_cases hcs : ∃ d ∈ cs, isRawBreak d = true
    · exact Nat.lt_of_lt_of_le (ih hcs) (Nat.le_add_left _ _)
    · have hc : isRawBreak c = true := by
        obtain ⟨d, hd, hb⟩ := h
        rcases List.mem_cons.1 hd with rfl | hd
        · exact hb
        · exact absurd ⟨d, hd, hb⟩ hcs
      have hr : runsBlank cs = false :=
        Bool.eq_false_iff.2 fun hr => hcs (exists_rawBreak_of_runsBlank hr)
      rw [hc, hr]
      exact Nat.lt_of_lt_of_le Nat.one_pos (Nat.le_add_right _ _)

theorem shifted_of_no_break {cs : List Char} (h : ∀ c ∈ cs, isRawBreak c = false)
    (margin : List Char) : shifted margin cs = cs := by
  induction cs with
  | nil => rfl
  | cons c cs ih =>
    obtain ⟨hc, hcs⟩ := List.forall_mem_cons.1 h
    rw [shifted, hc, ih hcs]
    rfl

/-- A text is read alike at two depths exactly if they are one, or the text has no line break that
is written as it is. -/
theorem atDepth_eq_iff (depth other : Nat) (cs : List Char) :
    atDepth depth cs = atDepth other cs ↔ depth = other ∨ ∀ c ∈ cs, isRawBreak c = false := by
  constructor
  · intro he
    by_cases hcs : ∃ c ∈ cs, isRawBreak c = true
    · have hl := congrArg List.length he
      rw [atDepth, atDepth, length_shifted, length_shifted, List.length_replicate,
        List.length_replicate] at hl
      have hm := Nat.eq_of_mul_eq_mul_left (shifts_pos hcs) (Nat.add_left_cancel hl)
      exact .inl (by omega)
    · right
      intro c hc
      exact Bool.eq_false_iff.2 fun hb => hcs ⟨c, hc, hb⟩
  · rintro (rfl | h)
    · rfl
    · rw [atDepth, atDepth, shifted_of_no_break h, shifted_of_no_break h]

theorem atDepth_zero (cs : List Char) : atDepth 0 cs = cs := by
  induction cs with
  | nil => rfl
  | cons c cs ih =>
    change c :: ((if isRawBreak c && !runsBlank cs then [] else []) ++ atDepth 0 cs) = c :: cs
    rw [ih, ite_self]
    rfl

end BlockMachine.Text
