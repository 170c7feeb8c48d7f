import BlockMachine.Proofs.Text.Escapes
import BlockMachine.Proofs.Text.Indentation

namespace BlockMachine.Text

variable {c : Char} {cs ds : List Char}

theorem toNat_ofNat {n : Nat} (h : n.isValidChar) : (Char.ofNat n).toNat = n := by
  rw [Char.ofNat, dif_pos h]
  rfl

theorem toNat_ofNat_le (n : Nat) : (Char.ofNat n).toNat ≤ n := by
  by_cases h : n.isValidChar
  · exact Nat.le_of_eq (toNat_ofNat h)
  · rw [Char.ofNat, dif_neg h]
    exact Nat.zero_le n

theorem not_isHalf (c : Char) : isHalf c.toNat = false := by
  have hc : c.toNat < 0xd800 ∨ 0xdfff < c.toNat ∧ c.toNat < 0x110000 := c.valid
  rw [isHalf, Bool.and_eq_false_iff, decide_eq_false_iff_not, decide_eq_false_iff_not]
  omega

theorem spelling_of_ne (h : c ≠ mark) : spelling c.toNat = [c] := by
  have hn : c.toNat ≠ mark.toNat := fun he => h (Char.toNat_inj.1 he)
  rw [spelling, not_isHalf, if_neg Bool.false_ne_true, if_neg hn, Char.ofNat_toNat]

theorem spelling_mark : spelling mark.toNat = [mark, markTail] := by
  rw [spelling, not_isHalf, if_neg Bool.false_ne_true, if_pos rfl]

theorem points_cons (h : c ≠ mark) (cs : List Char) : points (c :: cs) = c.toNat :: points cs := by
  cases cs with
  | nil => rfl
  | cons d cs => rw [points, if_neg h]

theorem points_mark (cs : List Char) :
    points (mark :: markTail :: cs) = mark.toNat :: points cs := by
  have ht : marked? markTail = some mark.toNat := by decide +kernel
  rw [points, if_pos rfl, ht]

theorem points_of_not_mem (h : ∀ c ∈ cs, c ≠ mark) : points cs = cs.map Char.toNat := by
  induction cs with
  | nil => rfl
  | cons c cs ih =>
    obtain ⟨hc, hcs⟩ := List.forall_mem_cons.1 h
    rw [points_cons hc, ih hcs, List.map_cons]

theorem chars_of_not_mem (h : ∀ c ∈ cs, c ≠ mark) : chars cs = cs := by
  rw [chars, points_of_not_mem h, List.map_map]
  exact (List.map_congr_left fun c _ => Char.ofNat_toNat c).trans (List.map_id cs)

theorem ne_mark (h : c.toNat < 0x10ffff) : c ≠ mark := by
  have hm : 0x10ffff ≤ mark.toNat := by decide +kernel
  rintro rfl
  exact Nat.not_lt.2 hm h

/-- What is spelled from characters, without halves of surrogate pairs. -/
inductive Scalar : List Char → Prop
  | nil : Scalar []
  | char {c : Char} {cs : List Char} : c ≠ mark → Scalar cs → Scalar (c :: cs)
  | marked {cs : List Char} : Scalar cs → Scalar (mark :: markTail :: cs)

namespace Scalar

theorem spelling (c : Char) : Scalar (spelling c.toNat) := by
  by_cases hc : c = mark
  · subst hc
    rw [spelling_mark]
    exact .marked .nil
  · rw [spelling_of_ne hc]
    exact .char hc .nil

theorem of_not_mem (h : ∀ c ∈ cs, c ≠ mark) : Scalar cs := by
  induction cs with
  | nil => exact .nil
  | cons c cs ih =>
    obtain ⟨hc, hcs⟩ := List.forall_mem_cons.1 h
    exact char hc (ih hcs)

theorem of_ascii (h : ∀ c ∈ cs, c.toNat < 0x80) : Scalar cs :=
  .of_not_mem fun c hc => ne_mark (Nat.lt_trans (h c hc) (by decide))

theorem ascii (h : cs.all (fun c => c.toNat < 0x80) = true) : Scalar cs :=
  .of_ascii fun c hc => of_decide_eq_true (List.all_eq_true.1 h c hc)

theorem cons (hc : c.toNat < 0x80) (h : Scalar cs) : Scalar (c :: cs) :=
  .char (ne_mark (Nat.lt_trans hc (by decide))) h

theorem append (hc : Scalar cs) (hd : Scalar ds) : Scalar (cs ++ ds) := by
  induction hc with
  | nil => exact hd
  | char hc _ ih => exact .char hc ih
  | marked _ ih => exact .marked ih

theorem flatMap {α : Type} {as : List α} {f : α → List Char} (h : ∀ a ∈ as, Scalar (f a)) :
    Scalar (as.flatMap f) := by
  induction as with
  | nil => exact nil
  | cons a as ih =>
    obtain ⟨ha, has⟩ := List.forall_mem_cons.1 h
    exact ha.append (ih has)

theorem split (h : Scalar (cs ++ ds)) (hd : cs.getLast? ≠ some mark ∨ ds.head? ≠ some markTail) :
    Scalar cs ∧ Scalar ds := by
  have tail {b : Char} {cs : List Char}
      (hd : (b :: cs).getLast? ≠ some mark ∨ ds.head? ≠ some markTail) :
      cs.getLast? ≠ some mark ∨ ds.head? ≠ some markTail := by
    cases cs with
    | nil => exact .inl nofun
    | cons _ _ => exact hd
  generalize he : cs ++ ds = es at h
  induction h generalizing cs with
  | nil =>
    obtain ⟨rfl, rfl⟩ := List.append_eq_nil_iff.1 he
    exact ⟨.nil, .nil⟩
  | char hc h ih =>
    cases cs with
    | nil =>
      subst he
      exact ⟨.nil, .char hc h⟩
    | cons b cs =>
      obtain ⟨rfl, ht⟩ := List.cons_eq_cons.1 he
      obtain ⟨hcs, hds⟩ := ih (tail hd) ht
      exact ⟨.char hc hcs, hds⟩
  | marked h ih =>
    cases cs with
    | nil =>
      subst he
      exact ⟨.nil, .marked h⟩
    | cons b cs =>
      obtain ⟨rfl, ht⟩ := List.cons_eq_cons.1 he
      cases cs with
      | nil =>
        subst ht
        rcases hd with hd | hd
        · exact absurd rfl hd
        · exact absurd rfl hd
      | cons b cs =>
        obtain ⟨rfl, hu⟩ := List.cons_eq_cons.1 ht
        obtain ⟨hcs, hds⟩ := ih (tail (tail hd)) hu
        exact ⟨.marked hcs, hds⟩

theorem escapes (h : Scalar cs) : Scalar (cs.flatMap escape) := by
  have hm : escape mark = [mark] ∧ escape markTail = [markTail] := by decide +kernel
  induction h with
  | nil => exact .nil
  | @char c cs hc _ ih =>
    rw [List.flatMap_cons]
    refine append ?_ ih
    have he := escaped c
    generalize escape c = e at he
    cases he with
    | short he =>
      have hall : shortEscapes.all (fun e => e.toNat < 0x80) = true := by decide
      exact .cons (by decide) (.cons (of_decide_eq_true (List.all_eq_true.1 hall _ he)) .nil)
    | unit => exact .of_ascii (forall_mem_unitEscape (by decide) (by decide) (by decide) _)
    | plain => exact .char hc .nil
  | marked _ ih =>
    rw [List.flatMap_cons, List.flatMap_cons, hm.1, hm.2]
    exact .marked ih

theorem quoteWith (h : Scalar cs) : Scalar (quoteWith escape cs) :=
  .cons (by decide) (h.escapes.append (.cons (by decide) .nil))

theorem isBlank_mark : isBlank mark = false ∧ isBlank markTail = false := by decide +kernel

theorem trim (h : Scalar cs) : Scalar (trim cs) := by
  have hb : ∀ c ∈ cs.takeWhile isBlank, c ≠ mark := by
    rintro c hc rfl
    exact absurd (List.all_eq_true.1 List.all_takeWhile _ hc) (by simp [isBlank_mark])
  have hl : Scalar (trimLeft cs) := by
    rw [← List.takeWhile_append_dropWhile (p := isBlank) (l := cs)] at h
    exact (h.split (.inl fun hm => hb _ (List.mem_of_getLast? hm) rfl)).2
  rw [Text.trim]
  generalize trimLeft cs = ds at hl
  have he : ds = trimRight ds ++ (ds.reverse.takeWhile isBlank).reverse := by
    rw [trimRight, ← List.reverse_append, List.takeWhile_append_dropWhile, List.reverse_reverse]
  rw [he] at hl
  refine (hl.split (.inr fun hm => ?_)).1
  have hd := List.mem_reverse.1 (List.mem_of_head? hm)
  exact absurd (List.all_eq_true.1 List.all_takeWhile _ hd) (by simp [isBlank_mark])

theorem dropFinal (h : Scalar cs) (hc : c ≠ markTail) : Scalar (dropFinal c cs) := by
  rw [Text.dropFinal]
  split
  · rename_i hl
    obtain ⟨ds, rfl⟩ := List.getLast?_eq_some_iff.1 hl
    rw [List.dropLast_concat]
    refine (h.split (.inr fun hm => hc ?_)).1
    exact Option.some.inj hm
  · exact h

theorem continued {margin : List Char} (h : Scalar cs) (hm : Scalar margin) :
    Scalar (continued margin cs) := by
  have hb : ¬ isLineBreak mark = true ∧ ¬ isLineBreak markTail = true := by decide +kernel
  induction h with
  | nil => exact .nil
  | @char c cs hc _ ih =>
    have ha : Scalar (marginAfter margin c cs) := by
      rw [marginAfter]
      split
      · exact hm
      · exact .nil
    exact .char hc (ha.append ih)
  | marked _ ih =>
    rw [continued_of_not_break hb.1, continued_of_not_break hb.2]
    exact .marked ih

theorem indent {margin : List Char} (h : Scalar cs) (hm : Scalar margin) :
    Scalar (indent margin cs) := by
  rw [indent_eq]
  refine append ?_ (h.continued hm)
  split
  · exact .nil
  · exact hm

theorem exists_points (h : Scalar cs) : ∃ ds : List Char, points cs = ds.map Char.toNat := by
  induction h with
  | nil => exact ⟨[], rfl⟩
  | char hc _ ih =>
    obtain ⟨ds, hd⟩ := ih
    exact ⟨_ :: ds, by rw [points_cons hc, hd, List.map_cons]⟩
  | marked _ ih =>
    obtain ⟨ds, hd⟩ := ih
    exact ⟨mark :: ds, by rw [points_mark, hd, List.map_cons]⟩

theorem isEncodable (h : Scalar cs) : isEncodable cs = true := by
  obtain ⟨ds, hd⟩ := h.exists_points
  rw [Text.isEncodable, hd, List.all_map, List.all_eq_true]
  intro c _
  rw [Function.comp_apply, not_isHalf]
  rfl

end Scalar
end BlockMachine.Text
