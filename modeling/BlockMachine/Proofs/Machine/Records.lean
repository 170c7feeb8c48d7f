import BlockMachine.Proofs.Machine.Names
import BlockMachine.Proofs.Script.Awaitable

namespace BlockMachine

namespace Fragment

open Text (StartsVisible EndsVisible)

/-- Only the last comma is taken away, whatever commas and blanks the record has. -/
theorem bareRecord_comma {s : String} (hs : StartsVisible s.toList) {t : String}
    (ht : allBlank t = true) : bareRecord (s ++ "," ++ t) = s := by
  have hc : StartsVisible (s.toList ++ [',']) := hs.append [',']
  have he : EndsVisible (s.toList ++ [',']) := ⟨s.toList, ',', rfl, by decide⟩
  have hl : (s ++ "," ++ t).toList = s.toList ++ [','] ++ t.toList := by
    rw [String.toList_append, String.toList_append]
    rfl
  rw [bareRecord, hl, Text.trim_append hc he, Text.trimRight_of_blank ht, List.append_nil,
    Text.dropFinal, if_pos List.getLast?_concat, List.dropLast_concat, String.ofList_toList]

theorem joinRecords_eq {fragments records : List String} (h : fragments.map bareRecord = records)
    (hn : ∀ r ∈ records, r ≠ "") : joinRecords fragments = ",\n".intercalate records := by
  rw [joinRecords, h, List.filter_eq_self.2]
  intro r hr
  simpa using hn r hr

theorem joinRecords_commas {records : List String} (h : ∀ r ∈ records, StartsVisible r.toList)
    {t : String} (ht : allBlank t = true) :
    joinRecords (records.map fun r => r ++ "," ++ t) = ",\n".intercalate records := by
  apply joinRecords_eq
  · rw [List.map_map]
    refine (List.map_congr_left fun r hr => ?_).trans (List.map_id records)
    exact bareRecord_comma (h r hr) ht
  · rintro _ hr rfl
    obtain ⟨a, rest, he, -⟩ := h _ hr
    cases he

end Fragment

theorem startsVisible_quoted (s : String) : Text.StartsVisible (quoted s).toList := by
  refine ⟨'"', s.toList.flatMap Text.escape ++ ['"'], ?_, by decide⟩
  rw [quoted, String.toList_ofList]
  rfl

namespace Transition

theorem startsVisible_script (t : Transition) : Text.StartsVisible t.script.toList := by
  obtain ⟨cs, hc⟩ := Script.toList_braced _
  exact ⟨_, _, hc, by decide⟩

theorem joinRecords_script (ts : List Transition) :
    Fragment.joinRecords (ts.map script) = ",\n".intercalate (ts.map script) := by
  apply Fragment.joinRecords_eq
  · rw [List.map_map]
    exact List.map_congr_left fun t _ => Script.bareRecord_braced _
  · intro r hr
    obtain ⟨t, -, rfl⟩ := List.mem_map.1 hr
    exact Script.braced_ne_empty _

theorem joinRecords_script_commas (ts : List Transition) :
    Fragment.joinRecords (ts.map fun t => t.script ++ ",\n") =
      Fragment.joinRecords (ts.map script) := by
  have hv : ∀ r ∈ ts.map script, Text.StartsVisible r.toList := by
    intro r hr
    obtain ⟨t, -, rfl⟩ := List.mem_map.1 hr
    exact t.startsVisible_script
  have hc : (ts.map fun t => t.script ++ ",\n") = (ts.map script).map (· ++ "," ++ "\n") := by
    rw [List.map_map]
    apply List.map_congr_left
    intro t _
    rw [Function.comp_apply, String.append_assoc]
    rfl
  rw [hc, Fragment.joinRecords_commas hv (by decide), joinRecords_script]

theorem array_script {ts : List Transition} (h : ts ≠ []) :
    Script.array (ts.map script) =
      "[\n" ++ indented (Fragment.joinRecords (ts.map script)) ++ "\n]" := by
  rw [joinRecords_script]
  apply Script.array_of_braced
  · intro r hr
    obtain ⟨t, -, rfl⟩ := List.mem_map.1 hr
    exact ⟨_, rfl⟩
  · exact fun he => h (List.map_eq_nil_iff.1 he)

end Transition
end BlockMachine
