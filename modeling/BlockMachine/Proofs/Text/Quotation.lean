import BlockMachine.Proofs.Json.Strings

namespace BlockMachine

namespace Json

open Text (escape quoteWith)

theorem readUnits_escape (c : Char) (cs : List Char) :
    readUnits (escape c ++ cs) =
      (readUnits cs).map fun (us, rest) => (c.toNat :: us, rest) := by
  rw [escape]
  split
  · rename_i e he
    obtain ⟨x, hx, rfl, hc, -⟩ := Text.shortEscape?_cases he
    exact readUnits_short hx hc cs
  · rename_i hn
    obtain ⟨hq, hb⟩ := Text.ne_of_shortEscape?_eq_none hn
    split
    · exact readUnits_unitEscape (by omega) cs
    · exact readUnits_plain (by omega) hq hb cs

theorem readUnits_escapes (cs rest : List Char) :
    readUnits (cs.flatMap escape ++ '"' :: rest) = some (cs.map Char.toNat, rest) := by
  induction cs with
  | nil => rfl
  | cons c cs ih =>
    rw [List.flatMap_cons, List.append_assoc, readUnits_escape, ih]
    rfl

theorem joinUnits_toNat (cs : List Char) : joinUnits (cs.map Char.toNat) = cs := by
  induction cs with
  | nil => rfl
  | cons c cs ih =>
    rw [List.map_cons, joinUnits_cons (Text.not_isHalf c), ih, Char.ofNat_toNat]

theorem readValue_quoteWith (depth : Nat) (cs rest : List Char) :
    readValue (depth + 1) (quoteWith escape cs ++ rest) = .ok (.str (String.ofList cs), rest) := by
  have ht : readText (cs.flatMap escape ++ '"' :: rest) = .ok (String.ofList cs, rest) := by
    rw [readText, readUnits_escapes]
    simp only [joinUnits_toNat]
  rw [quoteWith, List.cons_append, List.append_assoc, List.singleton_append, readValue, ht]
  rfl

end Json

theorem quoted_append_inj {s s' t t' : String} (h : quoted s ++ t = quoted s' ++ t') :
    s = s' ∧ t = t' := by
  have hl := congrArg (fun u : String => Text.readLiteral u.toList) h
  simp only [quoted, String.toList_append, String.toList_ofList, Text.readLiteral_quoteWith,
    Option.some.injEq, Prod.mk.injEq, String.toList_inj] at hl
  exact hl

/-- A literal is read to its own end and no further, by a reader of the script and by a reader of
documents; it has no control characters, and no other text has it. -/
theorem quoted_scans (s t : String) :
    Text.readLiteral (quoted s ++ t).toList = some (s.toList, t.toList) ∧
      (∀ depth, Json.readValue (depth + 1) (quoted s ++ t).toList = .ok (.str s, t.toList)) ∧
      (∀ c ∈ (quoted s).toList, 0x20 ≤ c.toNat) ∧
      Function.Injective quoted := by
  have hq : (quoted s).toList = Text.quoteWith Text.escape s.toList := String.toList_ofList
  rw [String.toList_append, hq]
  refine ⟨Text.readLiteral_quoteWith _ _, fun depth => ?_, Text.le_of_mem_quoteWith _, ?_⟩
  · rw [Json.readValue_quoteWith, String.ofList_toList]
  · intro s s' h
    exact (quoted_append_inj (congrArg (· ++ "") h)).1

/-- A text that ends like a literal that goes on, with a quote right behind its literal. -/
theorem quoted_hostile_scans :
    Text.readLiteral (quoted "\"\n\\" ++ "\" + x").toList =
        some ("\"\n\\".toList, "\" + x".toList) ∧
      Json.readValue 1 (quoted "\"\n\\" ++ "\" + x").toList =
        .ok (.str "\"\n\\", "\" + x".toList) ∧
      'n' ∈ (quoted "\"\n\\").toList ∧ 0x20 ≤ 'n'.toNat := by
  obtain ⟨hs, hd, hc, -⟩ := quoted_scans "\"\n\\" "\" + x"
  have hn : 'n' ∈ (quoted "\"\n\\").toList := by decide
  exact ⟨hs, hd 0, hn, hc 'n' hn⟩

end BlockMachine
