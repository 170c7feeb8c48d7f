import BlockMachine.Json.Reader
import BlockMachine.Proofs.Except
import BlockMachine.Proofs.Table

namespace BlockMachine.Json

/-- The first document is the second or stands somewhere in it. -/
inductive Inside (j : Json) : Json → Prop
  | refl : Inside j j
  | item {items : List Json} {k : Json} : k ∈ items → Inside j k → Inside j (.arr items)
  | member {members : Table Json} {e : String × Json} :
    e ∈ members → Inside j e.2 → Inside j (.obj members)

theorem Inside.trans {i j k : Json} (hij : Inside i j) (hjk : Inside j k) : Inside i k := by
  induction hjk with
  | refl => exact hij
  | item hm _ ih => exact .item hm ih
  | member hm _ ih => exact .member hm ih

theorem inside_of_get? {members : Table Json} {key : String} {j : Json}
    (h : Table.get? members key = some j) : Inside j (.obj members) :=
  .member (Table.mem_of_get? h) .refl

theorem eq_or_inside_of_getD {members : Table Json} {key : String} {d j : Json}
    (h : (Table.get? members key).getD d = j) : j = d ∨ Inside j (.obj members) := by
  cases hg : Table.get? members key with
  | none =>
    rw [hg] at h
    exact .inl h.symm
  | some k =>
    rw [hg] at h
    cases h
    exact .inr (inside_of_get? hg)

/-- No object of the document has a key twice. -/
inductive Distinct : Json → Prop
  | null : Distinct .null
  | bool (b : Bool) : Distinct (.bool b)
  | int (n : Int) : Distinct (.int n)
  | float (x : Binary64) : Distinct (.float x)
  | str (s : String) : Distinct (.str s)
  | arr {items : List Json} : (∀ j ∈ items, Distinct j) → Distinct (.arr items)
  | obj {members : Table Json} : (Table.keys members).Nodup →
    (∀ e ∈ members, Distinct e.2) → Distinct (.obj members)

@[simp] theorem distinct_int (n : Int) : Distinct (.int n) := .int n

@[simp] theorem distinct_str (s : String) : Distinct (.str s) := .str s

theorem distinct_empty : Distinct (.obj []) := .obj List.nodup_nil nofun

@[simp] theorem distinct_arr_iff {items : List Json} :
    Distinct (.arr items) ↔ ∀ j ∈ items, j.Distinct := by
  refine ⟨fun h => ?_, .arr⟩
  cases h with
  | arr hs => exact hs

@[simp] theorem distinct_obj_iff {members : Table Json} :
    Distinct (.obj members) ↔ (Table.keys members).Nodup ∧ ∀ e ∈ members, e.2.Distinct := by
  refine ⟨fun h => ?_, fun h => .obj h.1 h.2⟩
  cases h with
  | obj hn hs => exact ⟨hn, hs⟩

theorem Inside.distinct {j k : Json} (h : Inside j k) (hd : k.Distinct) : j.Distinct := by
  induction h with
  | refl => exact hd
  | item hm _ ih => exact ih (distinct_arr_iff.1 hd _ hm)
  | member hm _ ih => exact ih ((distinct_obj_iff.1 hd).2 _ hm)

theorem Distinct.of_get? {members : Table Json} (h : Distinct (.obj members)) {key : String}
    {j : Json} (hj : Table.get? members key = some j) : j.Distinct :=
  (inside_of_get? hj).distinct h

theorem distinct_ofEntries {members : Table Json} (h : ∀ e ∈ members, Distinct e.2) :
    Distinct (.obj (Table.ofEntries members)) := by
  have hn : (Table.keys ([] : Table Json)).Nodup := List.nodup_nil
  refine .obj (Table.nodup_putAll hn members) fun e he => ?_
  rcases Table.mem_putAll he with hn | hm
  · cases hn
  · exact h e hm

theorem distinct_readUnsigned {negative : Bool} {cs rest : List Char} {j : Json}
    (h : readUnsigned negative cs = .ok (j, rest)) : j.Distinct := by
  simp only [readUnsigned] at h
  split at h
  · cases h
  · split at h
    · split at h
      · cases h
        exact .int _
      · cases h
    · cases h
      exact .float _

theorem distinct_readNumber {cs rest : List Char} {j : Json}
    (h : readNumber cs = .ok (j, rest)) : j.Distinct := by
  rw [readNumber.eq_def] at h
  split at h <;> exact distinct_readUnsigned h

theorem distinct_readWord {cs rest : List Char} {j : Json} (h : readWord cs = some (j, rest)) :
    j.Distinct := by
  obtain ⟨⟨word, k⟩, hw, hk⟩ := List.exists_of_findSome?_eq_some h
  have he : k = j := by
    dsimp only at hk
    split at hk
    · cases hk
      rfl
    · cases hk
  have hall : ∀ w ∈ words, w.2.Distinct := by
    simp only [words, List.forall_mem_cons]
    exact ⟨.null, .bool _, .bool _, .float _, .float _, .float _, nofun⟩
  exact he ▸ hall (word, k) hw

/-- The three readers give distinct documents, up to some depth. -/
structure ReadsDistinct (depth : Nat) : Prop where
  value : ∀ {cs j rest}, readValue depth cs = .ok (j, rest) → j.Distinct
  items : ∀ {cs js rest}, readItems depth cs = .ok (js, rest) → ∀ j ∈ js, Distinct j
  members : ∀ {cs ms rest}, readMembers depth cs = .ok (ms, rest) → ∀ e ∈ ms, Distinct e.2

namespace ReadsDistinct

variable {depth : Nat} (ih : ReadsDistinct depth)

include ih

theorem value_succ {cs rest : List Char} {j : Json}
    (h : readValue (depth + 1) cs = .ok (j, rest)) : j.Distinct := by
  rw [readValue.eq_def] at h
  dsimp only at h
  split at h
  · obtain ⟨_, _, he⟩ := map_eq_ok.1 h
    cases he
    exact .str _
  · split at h
    · cases h
      exact .arr nofun
    · obtain ⟨_, hi, he⟩ := map_eq_ok.1 h
      cases he
      exact .arr (ih.items hi)
  · split at h
    · cases h
      exact distinct_empty
    · obtain ⟨_, hm, he⟩ := map_eq_ok.1 h
      cases he
      exact distinct_ofEntries (ih.members hm)
  · split at h
    · rename_i hw
      cases h
      exact distinct_readWord hw
    · exact distinct_readNumber h

theorem items_succ {cs rest : List Char} {js : List Json}
    (h : readItems (depth + 1) cs = .ok (js, rest)) : ∀ j ∈ js, Distinct j := by
  rw [readItems] at h
  obtain ⟨⟨j, after⟩, hj, h⟩ := bind_eq_ok.1 h
  have hd := ih.value hj
  dsimp only at h
  split at h
  · cases h
    exact List.forall_mem_singleton.2 hd
  · obtain ⟨⟨js, after⟩, hi, h⟩ := bind_eq_ok.1 h
    cases h
    exact List.forall_mem_cons.2 ⟨hd, ih.items hi⟩
  · cases h

theorem members_succ {cs rest : List Char} {ms : Table Json}
    (h : readMembers (depth + 1) cs = .ok (ms, rest)) : ∀ e ∈ ms, Distinct e.2 := by
  rw [readMembers.eq_def] at h
  dsimp only at h
  split at h
  · obtain ⟨⟨key, after⟩, _, h⟩ := bind_eq_ok.1 h
    dsimp only at h
    split at h
    · obtain ⟨⟨j, after⟩, hj, h⟩ := bind_eq_ok.1 h
      have hd := ih.value hj
      dsimp only at h
      split at h
      · cases h
        exact List.forall_mem_singleton.2 hd
      · obtain ⟨⟨ms, after⟩, hm, h⟩ := bind_eq_ok.1 h
        cases h
        exact List.forall_mem_cons.2 ⟨hd, ih.members hm⟩
      · cases h
    · cases h
  · cases h

end ReadsDistinct

theorem readsDistinct (depth : Nat) : ReadsDistinct depth := by
  induction depth with
  | zero => exact ⟨nofun, nofun, nofun⟩
  | succ depth ih => exact ⟨ih.value_succ, ih.items_succ, ih.members_succ⟩

theorem Distinct.of_read {s : String} {j : Json} (h : read s = .ok j) : j.Distinct := by
  obtain ⟨⟨k, rest⟩, hk, h⟩ := bind_eq_ok.1 h
  dsimp only at h
  split at h
  · cases h
    exact (readsDistinct _).value hk
  · cases h

end BlockMachine.Json
