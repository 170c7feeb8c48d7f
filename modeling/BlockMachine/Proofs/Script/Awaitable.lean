import BlockMachine.Proofs.Script.Words
import BlockMachine.Script.Fragment

namespace BlockMachine

namespace Text

/-- A text whose first character is no blank. -/
def StartsVisible (cs : List Char) : Prop := ∃ a rest, cs = a :: rest ∧ isBlank a = false

def EndsVisible (cs : List Char) : Prop := ∃ init b, cs = init ++ [b] ∧ isBlank b = false

variable {cs ds : List Char}

theorem not_isBlank_of_isWordChar {c : Char} (h : Identifier.isWordChar c = true) :
    isBlank c = false := by
  have hc := Identifier.toNat_of_isWordChar h
  simp [isBlank, inRanges, blankRanges]
  omega

theorem StartsVisible.append (h : StartsVisible cs) (ds : List Char) :
    StartsVisible (cs ++ ds) := by
  obtain ⟨a, rest, rfl, ha⟩ := h
  exact ⟨a, rest ++ ds, rfl, ha⟩

theorem EndsVisible.append (h : EndsVisible ds) (cs : List Char) : EndsVisible (cs ++ ds) := by
  obtain ⟨init, b, rfl, hb⟩ := h
  exact ⟨cs ++ init, b, (List.append_assoc _ _ _).symm, hb⟩

theorem StartsVisible.trimLeft (h : StartsVisible cs) : trimLeft cs = cs := by
  obtain ⟨a, rest, rfl, ha⟩ := h
  exact List.dropWhile_cons_of_neg (by simp [ha])

theorem EndsVisible.trimRight_append (h : EndsVisible cs) (ds : List Char) :
    trimRight (cs ++ ds) = cs ++ trimRight ds := by
  obtain ⟨init, b, rfl, hb⟩ := h
  have hd : (init ++ [b]).reverse.dropWhile isBlank = (init ++ [b]).reverse := by
    rw [List.reverse_append]
    exact List.dropWhile_cons_of_neg (by simp [hb])
  rw [trimRight, trimRight, List.reverse_append, List.dropWhile_append, hd]
  split
  · rename_i he
    rw [List.isEmpty_iff.1 he, List.reverse_reverse, List.reverse_nil, List.append_nil]
  · rw [List.reverse_append, List.reverse_reverse]

theorem trimRight_of_blank (h : isAllBlank ds = true) : trimRight ds = [] := by
  have hd : ds.reverse.dropWhile isBlank = [] := by
    apply List.dropWhile_eq_nil_iff.2
    intro c hc
    exact List.all_eq_true.1 h c (List.mem_reverse.1 hc)
  rw [trimRight, hd]
  rfl

theorem trim_append (hs : StartsVisible cs) (he : EndsVisible cs) (ds : List Char) :
    trim (cs ++ ds) = cs ++ trimRight ds := by
  rw [trim, (hs.append ds).trimLeft, he.trimRight_append]

theorem getLast?_trim_append {b : Char} (hb : isBlank b = false) (cs : List Char) :
    (trim (cs ++ [b])).getLast? = some b := by
  have hl : ∃ init, trimLeft (cs ++ [b]) = init ++ [b] := by
    rw [trimLeft, List.dropWhile_append]
    split
    · exact ⟨[], List.dropWhile_cons_of_neg (by simp [hb])⟩
    · exact ⟨_, rfl⟩
  obtain ⟨init, hi⟩ := hl
  have hr := EndsVisible.trimRight_append ⟨init, b, rfl, hb⟩ []
  rw [List.append_nil] at hr
  rw [trim, hi, hr]
  simp [trimRight]

end Text

namespace Fragment

open Text (StartsVisible EndsVisible trim)

variable {cs ds : List Char}

theorem not_isAwaitable_of_mem (hs : StartsVisible cs) (he : EndsVisible cs) (hm : '\n' ∈ cs)
    (ds : List Char) : isAwaitable (trim (cs ++ ds)) = false := by
  rw [Text.trim_append hs he, isAwaitable, List.contains_iff_mem.2 (List.mem_append_left _ hm)]
  rfl

/-- The start of a statement that is not awaited, up to a character that is no blank. -/
structure Opening (cs : List Char) : Prop where
  starts : StartsVisible cs
  ends : EndsVisible cs
  known : (unawaitable.any fun start => start.toList.isPrefixOf cs) = true
  free : firstWord cs ≠ "await".toList
  wordless : ∃ c ∈ cs, Identifier.isWordChar c = false

theorem Opening.not_isAwaitable (h : Opening cs) (ds : List Char) :
    isAwaitable (trim (cs ++ ds)) = false := by
  have hp : unawaitable.any (fun start => start.toList.isPrefixOf (cs ++ Text.trimRight ds)) =
      true := by
    obtain ⟨start, hm, hp⟩ := List.any_eq_true.1 h.known
    refine List.any_eq_true.2 ⟨start, hm, ?_⟩
    rw [List.isPrefixOf_iff_prefix] at hp ⊢
    exact hp.trans (List.prefix_append _ _)
  rw [Text.trim_append h.starts h.ends, isAwaitable, hp]
  exact Bool.and_false _

theorem Opening.firstWord_append (h : Opening cs) (ds : List Char) :
    firstWord (cs ++ ds) = firstWord cs := by
  obtain ⟨c, hc, hw⟩ := h.wordless
  exact firstWord_append_of_mem hc hw

theorem opening_brace : Opening ['\x7b'] :=
  ⟨⟨'\x7b', [], rfl, by decide⟩, ⟨[], '\x7b', rfl, by decide⟩, by decide, by decide,
    '\x7b', by decide, by decide⟩

theorem opening_branch : Opening ['i', 'f', ' ', '('] :=
  ⟨⟨'i', _, rfl, by decide⟩, ⟨['i', 'f', ' '], '(', rfl, by decide⟩, by decide, by decide,
    ' ', by decide, by decide⟩

theorem opening_return : Opening ['r', 'e', 't', 'u', 'r', 'n', ' ', '"'] :=
  ⟨⟨'r', _, rfl, by decide⟩, ⟨['r', 'e', 't', 'u', 'r', 'n', ' '], '"', rfl, by decide⟩,
    by decide, by decide, ' ', by decide, by decide⟩

theorem opening_declaration (name : String) : Opening ("let " ++ identifier name).toList := by
  have hv : EndsVisible (identifier name).toList := by
    obtain ⟨⟨⟨c, rest, hc, -⟩, hw⟩, -⟩ := Identifier.valid_identifier name
    have hn : (identifier name).toList ≠ [] := by
      rw [hc]
      nofun
    refine ⟨_, _, (List.dropLast_append_getLast hn).symm, ?_⟩
    exact Text.not_isBlank_of_isWordChar (hw _ (List.getLast_mem hn))
  rw [String.toList_append]
  refine ⟨⟨'l', _, rfl, by decide⟩, hv.append _, ?_, ?_, ' ', by simp, by decide⟩
  · simp [unawaitable, List.isPrefixOf]
  · exact fun h => nomatch (List.cons.inj h).1

theorem not_isAwaitable_of_last {b : Char} (hb : Text.isBlank b = false) (hn : b ≠ ';')
    (cs : List Char) : isAwaitable (trim (cs ++ [b])) = false := by
  rw [isAwaitable, Text.getLast?_trim_append hb]
  simp [hn]

theorem isAwaitable_line (hs : StartsVisible cs) :
    isAwaitable (trim (cs ++ [';', '\n'])) =
      (!cs.contains '\n' &&
        !unawaitable.any fun start => start.toList.isPrefixOf (cs ++ [';'])) := by
  have ht : trim (cs ++ [';', '\n']) = cs ++ [';'] := by
    have hv : EndsVisible (cs ++ [';']) := ⟨cs, ';', rfl, by decide⟩
    have h := Text.trim_append (hs.append [';']) hv ['\n']
    rw [Text.trimRight_of_blank (by decide), List.append_nil, List.append_assoc] at h
    exact h
  rw [ht, isAwaitable, List.getLast?_concat]
  simp

theorem not_unawaitable (cs : List Char) :
    (unawaitable.any fun start => start.toList.isPrefixOf ('a' :: cs)) = false := by
  simp [unawaitable, List.isPrefixOf]

theorem prefix_firstWord {p : List Char} (hw : ∀ c ∈ p, Identifier.isWordChar c = true)
    (hp : p <+: cs) : p <+: firstWord cs := by
  obtain ⟨rest, rfl⟩ := hp
  rw [firstWord, List.takeWhile_append_of_pos hw]
  exact List.prefix_append _ _

theorem firstWord_assignment (name : String) (ds : List Char) :
    firstWord ((identifier name).toList ++ ' ' :: ds) = (identifier name).toList := by
  rw [firstWord_append_of_head (by simp; decide), firstWord_identifier]

/-- The names whose assignments start like other statements. -/
def masked (name : String) : Bool :=
  ["return", "debugger"].any fun start => start.toList.isPrefixOf (identifier name).toList

/-- No identifier is a word of the script, so that an assignment starts like another statement only
by the letters of a name. -/
theorem unawaitable_assignment (name : String) (ds : List Char) :
    (unawaitable.any fun start => start.toList.isPrefixOf
      ((identifier name).toList ++ ' ' :: ds)) = masked name := by
  have hall : ∀ start ∈ unawaitable,
      (start ∈ ["return", "debugger"] ∧ start.toList.all Identifier.isWordChar = true) ∨
      start.toList.any (!Identifier.isWordChar ·) = true ∧
        (firstWord start.toList = [] ∨
          String.ofList (firstWord start.toList) ∈ Identifier.reserved) := by
    decide
  obtain ⟨⟨⟨c, rest, hc, -⟩, -⟩, hr⟩ := Identifier.valid_identifier name
  rw [Bool.eq_iff_iff, masked, List.any_eq_true, List.any_eq_true]
  constructor
  · rintro ⟨start, hm, hp⟩
    rw [List.isPrefixOf_iff_prefix] at hp
    rcases hall start hm with ⟨hm, hw⟩ | ⟨ha, hf⟩
    · have hi := prefix_firstWord (List.all_eq_true.1 hw) hp
      rw [firstWord_assignment] at hi
      exact ⟨start, hm, List.isPrefixOf_iff_prefix.2 hi⟩
    · obtain ⟨d, hd, hw⟩ := List.any_eq_true.1 ha
      obtain ⟨tail, ht⟩ := hp
      have hi : firstWord start.toList = (identifier name).toList := by
        rw [← firstWord_assignment name ds, ← ht, firstWord_append_of_mem hd (by simpa using hw)]
      rw [hi, String.ofList_toList] at hf
      rcases hf with hf | hf
      · rw [hc] at hf
        cases hf
      · exact absurd hf hr
  · rintro ⟨start, hm, hp⟩
    have hu : start ∈ unawaitable := by
      rcases List.mem_pair.1 hm with rfl | rfl <;> decide
    rw [List.isPrefixOf_iff_prefix] at hp
    exact ⟨start, hu, List.isPrefixOf_iff_prefix.2 (hp.trans (List.prefix_append _ _))⟩

end Fragment

end BlockMachine
