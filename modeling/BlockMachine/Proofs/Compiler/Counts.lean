import BlockMachine.Compiler.Statement
import BlockMachine.Proofs.Except
import BlockMachine.Proofs.Table
import BlockMachine.Proofs.Text.Digits

namespace BlockMachine

theorem Catalog.socketDigits?_decimalText (stem : String) (i : Nat) :
    ∃ ds, socketDigits? stem (stem ++ decimalText i) = some ds ∧ Text.ofDigits ds = i := by
  obtain ⟨ds, hd, hi⟩ := Text.digits?_toDigits i
  refine ⟨ds, ?_, hi⟩
  have hi' : ¬ (i : Int) < 0 := by omega
  simp [socketDigits?, decimalText, Text.decimal, hi', ← String.length_toList, hd]

theorem map_eq_of_mapM_eq_ok {α β : Type} {f : α → Except Fault β} {xs : List α} {ys : List β}
    (h : xs.mapM f = .ok ys) : xs.map f = ys.map .ok := by
  replace h := mapM_eq_ok_iff.1 h
  induction h with
  | nil => rfl
  | cons hy _ ih => rw [List.map_cons, List.map_cons, hy, ih]

theorem exists_mapM_eq_ok_iff {α β : Type} {f : α → Except Fault β} {xs : List α} :
    (∃ ys, xs.mapM f = .ok ys) ↔ ∀ x ∈ xs, ∃ y, f x = .ok y := by
  induction xs with
  | nil => exact ⟨fun _ => nofun, fun _ => ⟨[], rfl⟩⟩
  | cons x xs ih =>
    rw [List.mapM_cons, List.forall_mem_cons, ← ih]
    constructor
    · rintro ⟨ys, h⟩
      obtain ⟨y, hy, h⟩ := bind_eq_ok.1 h
      obtain ⟨zs, hz, -⟩ := bind_eq_ok.1 h
      exact ⟨⟨y, hy⟩, zs, hz⟩
    · rintro ⟨⟨y, hy⟩, zs, hz⟩
      exact ⟨y :: zs, bind_eq_ok.2 ⟨y, hy, bind_eq_ok.2 ⟨zs, hz, rfl⟩⟩⟩

namespace Block

variable {names : List String} {digits? : String → Option (List Nat)} {numbers : List Nat} {i : Nat}

theorem ofDigits_of_socketNumber {ds : List Nat} (h : socketNumber ds = .ok i) :
    Text.ofDigits ds = i := by
  rw [socketNumber, Text.boundedValue?] at h
  split at h
  · rename_i hs
    split at hs
    · cases hs
      exact Except.ok.inj h
    · cases hs
  · cases h

/-- The numbers are those in the names, since no name was too long to be read. -/
theorem mem_numbers_iff (h : (names.filterMap digits?).mapM socketNumber = .ok numbers) :
    i ∈ numbers ↔ ∃ name ∈ names, ∃ ds, digits? name = some ds ∧ Text.ofDigits ds = i := by
  have hm := map_eq_of_mapM_eq_ok h
  constructor
  · intro hi
    have hi : .ok i ∈ (names.filterMap digits?).map socketNumber := hm ▸ List.mem_map_of_mem hi
    obtain ⟨ds, hd, he⟩ := List.mem_map.1 hi
    obtain ⟨name, hn, hd⟩ := List.mem_filterMap.1 hd
    exact ⟨name, hn, ds, hd, ofDigits_of_socketNumber he⟩
  · rintro ⟨name, hn, ds, hd, rfl⟩
    have hs : socketNumber ds ∈ numbers.map .ok :=
      hm ▸ List.mem_map_of_mem (List.mem_filterMap.2 ⟨name, hn, hd⟩)
    obtain ⟨i, hi, he⟩ := List.mem_map.1 hs
    rw [ofDigits_of_socketNumber he.symm]
    exact hi

theorem numbers_subset {names' : List String} {numbers' : List Nat} (hn : names' ⊆ names)
    (h : (names.filterMap digits?).mapM socketNumber = .ok numbers)
    (h' : (names'.filterMap digits?).mapM socketNumber = .ok numbers') : numbers' ⊆ numbers := by
  intro i hi
  obtain ⟨name, hm, hd⟩ := (mem_numbers_iff h').1 hi
  exact (mem_numbers_iff h).2 ⟨name, hn hm, hd⟩

end Block

namespace ValueRule

variable {ρ σ : Type} {b : Block ρ} {b' : Block σ} {n k i : Nat}

theorem foldl_max_le_iff {numbers : List Nat} {count : Nat} :
    numbers.foldl (fun m i => max m (i + 1)) count ≤ n ↔ count ≤ n ∧ ∀ i ∈ numbers, i < n := by
  induction numbers generalizing count with
  | nil => simp
  | cons j numbers ih =>
    rw [List.foldl_cons, ih, List.forall_mem_cons, Nat.max_le, and_assoc, Nat.succ_le_iff]

theorem slotCount_eq_ok (h : slotCount b = .ok n) :
    ∃ numbers count, ((Table.keys b.values).filterMap (Catalog.socketDigits? "ADD")).mapM
        Block.socketNumber = .ok numbers ∧ b.count "itemCount" = .ok count ∧
      numbers.foldl (fun m i => max m (i + 1)) count = n := by
  obtain ⟨numbers, hn, h⟩ := bind_eq_ok.1 h
  obtain ⟨count, hc, h⟩ := bind_eq_ok.1 h
  exact ⟨numbers, count, hn, hc, Except.ok.inj h⟩

theorem exists_slotCount_iff : (∃ n, slotCount b = .ok n) ↔
    (∃ numbers, ((Table.keys b.values).filterMap (Catalog.socketDigits? "ADD")).mapM
      Block.socketNumber = .ok numbers) ∧ ∃ count, b.count "itemCount" = .ok count := by
  constructor
  · rintro ⟨n, h⟩
    obtain ⟨numbers, count, hn, hc, -⟩ := slotCount_eq_ok h
    exact ⟨⟨numbers, hn⟩, count, hc⟩
  · rintro ⟨⟨numbers, hn⟩, count, hc⟩
    exact ⟨_, bind_eq_ok.2 ⟨numbers, hn, bind_eq_ok.2 ⟨count, hc, rfl⟩⟩⟩

theorem lt_slotCount {r : ρ} (h : slotCount b = .ok n)
    (hv : b.value? ("ADD" ++ decimalText i) = some r) : i < n := by
  obtain ⟨numbers, count, hn, -, rfl⟩ := slotCount_eq_ok h
  obtain ⟨ds, hd, hi⟩ := Catalog.socketDigits?_decimalText "ADD" i
  have hm : i ∈ numbers :=
    (Block.mem_numbers_iff hn).2 ⟨_, Table.mem_keys_of_join_get? hv, ds, hd, hi⟩
  exact (foldl_max_le_iff.1 (Nat.le_refl _)).2 i hm

theorem slotCount_le (hk : Table.keys b'.values ⊆ Table.keys b.values)
    (hc : b'.count "itemCount" = b.count "itemCount") (h : slotCount b = .ok n)
    (h' : slotCount b' = .ok k) : k ≤ n := by
  obtain ⟨numbers, count, hn, hc₁, rfl⟩ := slotCount_eq_ok h
  obtain ⟨numbers', count', hn', hc₂, rfl⟩ := slotCount_eq_ok h'
  rw [hc, hc₁] at hc₂
  cases hc₂
  obtain ⟨hle, hlt⟩ := foldl_max_le_iff.1 (Nat.le_refl (numbers.foldl _ count))
  exact foldl_max_le_iff.2 ⟨hle, fun i hi => hlt i (Block.numbers_subset hk hn hn' hi)⟩

end ValueRule

namespace StatementRule

variable {ρ σ : Type} {b : Block ρ} {b' : Block σ} {is js : List Nat} {i j : Nat}

theorem mem_insertIndex : j ∈ insertIndex i is ↔ j = i ∨ j ∈ is := by
  induction is with
  | nil => simp [insertIndex]
  | cons k is ih =>
    rw [insertIndex]
    split
    · exact List.mem_cons
    · split
      · rename_i he
        simp [he]
      · rw [List.mem_cons, ih, List.mem_cons]
        exact or_left_comm

theorem pairwise_insertIndex (h : is.Pairwise (· < ·)) : (insertIndex i is).Pairwise (· < ·) := by
  induction is with
  | nil => exact List.pairwise_singleton _ i
  | cons k is ih =>
    obtain ⟨hk, hs⟩ := List.pairwise_cons.1 h
    rw [insertIndex]
    split
    · rename_i hlt
      refine List.pairwise_cons.2 ⟨List.forall_mem_cons.2 ⟨hlt, fun l hl => ?_⟩, h⟩
      exact Nat.lt_trans hlt (hk l hl)
    · split
      · exact h
      · refine List.pairwise_cons.2 ⟨fun l hl => ?_, ih hs⟩
        rcases mem_insertIndex.1 hl with rfl | hl
        · omega
        · exact hk l hl

theorem mem_foldl_insertIndex {numbers : List Nat} :
    i ∈ numbers.foldl (fun is i => insertIndex i is) is ↔ i ∈ is ∨ i ∈ numbers := by
  induction numbers generalizing is with
  | nil => simp
  | cons k numbers ih =>
    rw [List.foldl_cons, ih, mem_insertIndex, List.mem_cons]
    exact or_assoc.trans (or_left_comm)

theorem pairwise_foldl_insertIndex {numbers : List Nat} (h : is.Pairwise (· < ·)) :
    (numbers.foldl (fun is i => insertIndex i is) is).Pairwise (· < ·) := by
  induction numbers generalizing is with
  | nil => exact h
  | cons k numbers ih => exact ih (pairwise_insertIndex h)

theorem branchIndices_eq_ok (h : branchIndices b = .ok is) :
    ∃ count numbers, b.count "elseIfCount" = .ok count ∧
      (b.sockets.filterMap branchDigits?).mapM Block.socketNumber = .ok numbers ∧
      numbers.foldl (fun is i => insertIndex i is) (List.range (count + 1)) = is := by
  obtain ⟨count, hc, h⟩ := bind_eq_ok.1 h
  obtain ⟨numbers, hn, h⟩ := bind_eq_ok.1 h
  exact ⟨count, numbers, hc, hn, Except.ok.inj h⟩

theorem exists_branchIndices_iff : (∃ is, branchIndices b = .ok is) ↔
    (∃ count, b.count "elseIfCount" = .ok count) ∧
      ∃ numbers, (b.sockets.filterMap branchDigits?).mapM Block.socketNumber = .ok numbers := by
  constructor
  · rintro ⟨is, h⟩
    obtain ⟨count, numbers, hc, hn, -⟩ := branchIndices_eq_ok h
    exact ⟨⟨count, hc⟩, numbers, hn⟩
  · rintro ⟨⟨count, hc⟩, numbers, hn⟩
    exact ⟨_, bind_eq_ok.2 ⟨count, hc, bind_eq_ok.2 ⟨numbers, hn, rfl⟩⟩⟩

theorem pairwise_branchIndices (h : branchIndices b = .ok is) : is.Pairwise (· < ·) := by
  obtain ⟨count, numbers, -, -, rfl⟩ := branchIndices_eq_ok h
  exact pairwise_foldl_insertIndex List.pairwise_lt_range

theorem zero_mem_branchIndices (h : branchIndices b = .ok is) : 0 ∈ is := by
  obtain ⟨count, numbers, -, -, rfl⟩ := branchIndices_eq_ok h
  exact mem_foldl_insertIndex.2 (.inl (List.mem_range.2 (Nat.succ_pos count)))

theorem mem_branchIndices (h : branchIndices b = .ok is) {socket : String} (hs : socket ∈ b.sockets)
    {ds : List Nat} (hd : branchDigits? socket = some ds) : Text.ofDigits ds ∈ is := by
  obtain ⟨count, numbers, -, hn, rfl⟩ := branchIndices_eq_ok h
  exact mem_foldl_insertIndex.2 (.inr ((Block.mem_numbers_iff hn).2 ⟨socket, hs, ds, hd, rfl⟩))

theorem mem_branchIndices_of_value? {r : ρ} (h : branchIndices b = .ok is)
    (hv : b.value? ("IF" ++ decimalText i) = some r) : i ∈ is := by
  obtain ⟨ds, hd, rfl⟩ := Catalog.socketDigits?_decimalText "IF" i
  refine mem_branchIndices h (List.mem_append_left _ (Table.mem_keys_of_join_get? hv)) ?_
  rw [branchDigits?, hd]
  rfl

theorem mem_branchIndices_of_head? {r : ρ} (h : branchIndices b = .ok is)
    (hv : b.head? ("DO" ++ decimalText i) = some r) : i ∈ is := by
  obtain ⟨ds, hd, rfl⟩ := Catalog.socketDigits?_decimalText "DO" i
  refine mem_branchIndices h (List.mem_append_right _ (Table.mem_keys_of_join_get? hv)) ?_
  have hn : Catalog.socketDigits? "IF" ("DO" ++ decimalText (Text.ofDigits ds)) = none := by
    simp [Catalog.socketDigits?]
  rw [branchDigits?, hn, hd]
  rfl

theorem branchIndices_subset (hs : b'.sockets ⊆ b.sockets)
    (hc : b'.count "elseIfCount" = b.count "elseIfCount") (h : branchIndices b = .ok is)
    (h' : branchIndices b' = .ok js) : js ⊆ is := by
  obtain ⟨count, numbers, hc₁, hn, rfl⟩ := branchIndices_eq_ok h
  obtain ⟨count', numbers', hc₂, hn', rfl⟩ := branchIndices_eq_ok h'
  rw [hc, hc₁] at hc₂
  cases hc₂
  intro i hi
  rw [mem_foldl_insertIndex] at hi ⊢
  exact hi.imp id fun hi => Block.numbers_subset hs hn hn' hi

end StatementRule
end BlockMachine
