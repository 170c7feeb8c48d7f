import BlockMachine.Proofs.Text.CodePoint
import BlockMachine.Proofs.Text.Escapes

namespace BlockMachine

namespace Text

/-- The characters that can be printed and are ASCII. -/
def IsPlain (c : Char) : Prop := 0x20 ≤ c.toNat ∧ c.toNat < 0x7f

instance (c : Char) : Decidable (IsPlain c) := inferInstanceAs (Decidable (_ ∧ _))

theorem shortEscape?_cases {c : Char} {e : List Char} (h : shortEscape? c = some e) :
    ∃ x ∈ shortEscapes,
      e = ['\\', x] ∧ Json.escaped? x = some c ∧ 0 < c.toNat ∧ c.toNat < 0x80 := by
  rw [shortEscape?] at h
  repeat' split at h
  all_goals cases h
  all_goals subst c; exact ⟨_, by decide, rfl, by decide, by decide⟩

theorem isPlain_unitEscape (n : Nat) : ∀ d ∈ unitEscape n, IsPlain d :=
  forall_mem_unitEscape (by decide) (by decide) (by decide) n

theorem toNat_of_shortEscape? {n : Nat} {e : List Char} (h : shortEscape? (Char.ofNat n) = some e) :
    (Char.ofNat n).toNat = n := by
  by_cases hn : n.isValidChar
  · exact toNat_ofNat hn
  · obtain ⟨_, _, _, _, hz, _⟩ := shortEscape?_cases h
    rw [Char.ofNat, dif_neg hn] at hz
    exact absurd hz (by decide)

theorem isPlain_escapePlain (n : Nat) : ∀ d ∈ escapePlain n, IsPlain d := by
  rw [escapePlain]
  split
  · rename_i e he
    obtain ⟨x, hx, rfl, -⟩ := shortEscape?_cases he
    have hall : shortEscapes.all (fun x => decide (IsPlain x)) = true := by decide
    have hp := of_decide_eq_true (List.all_eq_true.1 hall x hx)
    exact List.forall_mem_cons.2 ⟨by decide, List.forall_mem_singleton.2 hp⟩
  · split
    · rename_i hp
      rw [List.forall_mem_singleton, IsPlain, toNat_ofNat (.inl (by omega))]
      exact hp
    · intro d hd
      obtain ⟨u, -, hd⟩ := List.mem_flatMap.1 hd
      exact isPlain_unitEscape u d hd

theorem isPlain_quotePlain (cs : List Char) : ∀ d ∈ quotePlain cs, IsPlain d := by
  have hq : IsPlain '"' := by decide
  refine List.forall_mem_cons.2 ⟨hq, List.forall_mem_append.2 ⟨?_, List.forall_mem_singleton.2 hq⟩⟩
  intro d hd
  obtain ⟨n, -, hd⟩ := List.mem_flatMap.1 hd
  exact isPlain_escapePlain n d hd

theorem lt_of_isHalf {n : Nat} (h : isHalf n = true) : n < 0xe000 := by
  rw [isHalf, Bool.and_eq_true, decide_eq_true_eq, decide_eq_true_eq] at h
  exact h.2

theorem lt_of_marked? {c : Char} {n : Nat} (h : marked? c = some n) : n < 0x110000 := by
  have hm : mark.toNat < 0x110000 := by decide +kernel
  rw [marked?] at h
  split at h
  · rename_i hh
    rw [← Option.some.inj h]
    exact Nat.lt_trans (lt_of_isHalf hh) (by decide)
  · split at h
    · rw [← Option.some.inj h]
      exact hm
    · cases h

theorem lt_of_mem_points (cs : List Char) : ∀ n ∈ points cs, n < 0x110000 := by
  have hc (c : Char) : c.toNat < 0x110000 := by
    rcases c.valid with h | ⟨-, h⟩
    · exact Nat.lt_trans h (by decide)
    · exact h
  fun_induction points cs with
  | case1 => exact nofun
  | case2 c => exact List.forall_mem_singleton.2 (hc c)
  | case3 c d cs n hn ih =>
    refine List.forall_mem_cons.2 ⟨?_, ih⟩
    split at hn
    · exact lt_of_marked? hn
    · cases hn
  | case4 c d cs _ ih => exact List.forall_mem_cons.2 ⟨hc c, ih⟩

end Text

namespace Json

open Text (escapePlain isHalf mark not_isHalf points points_cons points_mark spelling spelling_mark
  spelling_of_ne unitEscape units)

theorem readUnits_short {x c : Char} (h : x ∈ Text.shortEscapes) (hc : escaped? x = some c)
    (cs : List Char) :
    readUnits ('\\' :: x :: cs) = (readUnits cs).map fun (us, rest) => (c.toNat :: us, rest) := by
  have hu : x ≠ 'u' := by
    rintro rfl
    revert h
    decide
  rw [readUnits]
  · rw [hc]
    cases readUnits cs <;> rfl
  · intro _ _ _ _ _ hx _
    exact hu hx

theorem readUnits_plain {c : Char} (hc : 0x20 ≤ c.toNat) (hq : c ≠ '"') (hb : c ≠ '\\')
    (cs : List Char) :
    readUnits (c :: cs) = (readUnits cs).map fun (us, rest) => (c.toNat :: us, rest) := by
  rw [readUnits]
  · rw [if_neg (Nat.not_lt.2 hc)]
    cases readUnits cs <;> rfl
  · exact hq
  all_goals
    intros
    exact hb (by assumption)

theorem readUnits_unitEscape {n : Nat} (h : n < 0x10000) (cs : List Char) :
    readUnits (unitEscape n ++ cs) = (readUnits cs).map fun (us, rest) => (n :: us, rest) := by
  obtain ⟨x, y, z, w, hx, hu⟩ := Text.unit?_hex4 h
  rw [unitEscape, hx]
  simp only [List.cons_append, List.nil_append, readUnits]
  rw [hu]
  cases readUnits cs <;> rfl

theorem readUnits_unitEscapes {us : List Nat} (h : ∀ u ∈ us, u < 0x10000) (cs : List Char) :
    readUnits (us.flatMap unitEscape ++ cs) =
      (readUnits cs).map fun (vs, rest) => (us ++ vs, rest) := by
  induction us with
  | nil =>
    rw [List.flatMap_nil, List.nil_append]
    cases readUnits cs <;> rfl
  | cons u us ih =>
    obtain ⟨hu, hus⟩ := List.forall_mem_cons.1 h
    rw [List.flatMap_cons, List.append_assoc, readUnits_unitEscape hu, ih hus]
    cases readUnits cs <;> rfl

theorem lt_of_mem_units {n : Nat} (h : n < 0x110000) : ∀ u ∈ units n, u < 0x10000 := by
  rw [units]
  split
  · exact List.forall_mem_singleton.2 (by assumption)
  · refine List.forall_mem_cons.2 ⟨?_, List.forall_mem_singleton.2 ?_⟩
    · omega
    · omega

theorem readUnits_escapePlain {n : Nat} (h : n < 0x110000) (cs : List Char) :
    readUnits (escapePlain n ++ cs) =
      (readUnits cs).map fun (us, rest) => (units n ++ us, rest) := by
  rw [escapePlain]
  split
  · rename_i e he
    have hn := Text.toNat_of_shortEscape? he
    obtain ⟨x, hx, rfl, hc, -, hl⟩ := Text.shortEscape?_cases he
    have hu : units n = [(Char.ofNat n).toNat] := by
      rw [hn] at hl ⊢
      exact if_pos (Nat.lt_trans hl (by decide))
    rw [hu]
    exact readUnits_short hx hc cs
  · rename_i hs
    obtain ⟨hq, hb⟩ := Text.ne_of_shortEscape?_eq_none hs
    split
    · rename_i hp
      have hn := Text.toNat_ofNat (n := n) (.inl (by omega))
      have hu : units n = [(Char.ofNat n).toNat] := by
        rw [hn]
        exact if_pos (Nat.lt_trans hp.2 (by decide))
      rw [hu]
      exact readUnits_plain (by omega) hq hb cs
    · exact readUnits_unitEscapes (lt_of_mem_units h) cs

theorem readUnits_flatMap {ns : List Nat} (h : ∀ n ∈ ns, n < 0x110000) (rest : List Char) :
    readUnits (ns.flatMap escapePlain ++ '"' :: rest) = some (ns.flatMap units, rest) := by
  induction ns with
  | nil => rfl
  | cons n ns ih =>
    obtain ⟨hn, hns⟩ := List.forall_mem_cons.1 h
    rw [List.flatMap_cons, List.append_assoc, readUnits_escapePlain hn, ih hns]
    rfl

theorem joinUnits_cons {u : Nat} (h : isHalf u = false) (us : List Nat) :
    joinUnits (u :: us) = Char.ofNat u :: joinUnits us := by
  have hl : loneUnit u = [Char.ofNat u] := if_neg (Bool.eq_false_iff.1 h)
  rw [isHalf, Bool.and_eq_false_iff, decide_eq_false_iff_not, decide_eq_false_iff_not] at h
  cases us with
  | nil => exact hl
  | cons v us =>
    rw [joinUnits, if_neg (by omega), hl]
    rfl

/-- The units of a character are joined to it, whatever comes behind them. -/
theorem joinUnits_units (c : Char) (us : List Nat) :
    joinUnits (units c.toNat ++ us) = spelling c.toNat ++ joinUnits us := by
  have hc : c.toNat < 0xd800 ∨ 0xdfff < c.toNat ∧ c.toNat < 0x110000 := c.valid
  rw [units]
  split
  · rename_i hn
    have hm : c ≠ mark := by
      rintro rfl
      revert hn
      decide
    rw [List.cons_append, List.nil_append, joinUnits_cons (not_isHalf c), Char.ofNat_toNat,
      spelling_of_ne hm]
    rfl
  · simp only [List.cons_append, List.nil_append]
    rw [joinUnits, if_pos (by omega)]
    have hn : 0x10000 + (0xd800 + (c.toNat - 0x10000) / 0x400 - 0xd800) * 0x400 +
        (0xdc00 + (c.toNat - 0x10000) % 0x400 - 0xdc00) = c.toNat := by omega
    rw [hn]

theorem joinUnits_points {cs : List Char} (h : Text.Scalar cs) :
    joinUnits ((points cs).flatMap units) = cs := by
  induction h with
  | nil => rfl
  | char hc _ ih =>
    rw [points_cons hc, List.flatMap_cons, joinUnits_units, ih, spelling_of_ne hc]
    rfl
  | marked _ ih =>
    rw [points_mark, List.flatMap_cons, joinUnits_units, ih, spelling_mark]
    rfl

theorem readText_points {s : String} (h : Text.Scalar s.toList) (rest : List Char) :
    readText ((points s.toList).flatMap escapePlain ++ '"' :: rest) = .ok (s, rest) := by
  rw [readText, readUnits_flatMap (Text.lt_of_mem_points _)]
  simp only [joinUnits_points h, String.ofList_toList]

end Json
end BlockMachine
