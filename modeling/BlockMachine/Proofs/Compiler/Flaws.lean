import BlockMachine.Compiler.Assembly
import BlockMachine.Proofs.Except
import BlockMachine.Proofs.Number.Range
import BlockMachine.Proofs.Table

namespace BlockMachine

variable {ρ : Type}

/-- A block whose rule fails without a report. Branches are counted before their sockets are looked
at, and the slots of a list behind them. -/
inductive Block.Flaw (b : Block ρ) : Defect → Prop
  | number {n : Int} : b.kind = "math_number" → b.field? "NUM" = some (.int n) →
    2 ^ 1024 - 2 ^ 970 ≤ n.natAbs → Flaw b .numberTooLarge
  | slot {socket : String} {digits : List Nat} : b.kind = "lists_create_with" →
    socket ∈ Table.keys b.values → Catalog.socketDigits? "ADD" socket = some digits →
    4300 < digits.length → Flaw b .numeralTooLong
  | branch {socket : String} {digits : List Nat} {count : Nat} : b.kind = "controls_if" →
    b.count "elseIfCount" = .ok count → socket ∈ b.sockets →
    StatementRule.branchDigits? socket = some digits → 4300 < digits.length →
    Flaw b .numeralTooLong

/-- The fault is reported, or the block has a flaw that it stands for. -/
def Block.Explains (b : Block ρ) (f : Fault) : Prop :=
  f.report?.isSome ∨ ∃ d, f = .defect d ∧ b.Flaw d

namespace Block

variable {b : Block ρ} {f : Fault}

theorem Explains.of_rule (f : RuleFault) : b.Explains (.rule f) := .inl rfl

theorem count_eq_error {key : String} (h : b.count key = .error f) :
    ∃ count, b.state? key = some count ∧ (∀ n : Nat, count ≠ .int n) ∧
      f = .rule (.invalidCount key count b.site) := by
  rw [count] at h
  split at h
  · cases h
  · rename_i n hs
    split at h
    · rename_i hn
      cases h
      refine ⟨_, hs, fun m hm => ?_, rfl⟩
      cases hm
      omega
    · cases h
  · rename_i hi hs
    cases h
    exact ⟨_, hs, fun m => hi m, rfl⟩

theorem socketNumber_eq_error {ds : List Nat} :
    socketNumber ds = .error f ↔ f = .defect .numeralTooLong ∧ 4300 < ds.length := by
  rw [socketNumber, Text.boundedValue?]
  by_cases h : ds.length ≤ Text.maxDigits
  · rw [if_pos h]
    have : ¬ 4300 < ds.length := Nat.not_lt.2 h
    simp [this]
  · rw [if_neg h]
    have : 4300 < ds.length := Nat.lt_of_not_le h
    simp [this, eq_comm]

theorem mapM_socketNumber_eq_error {dss : List (List Nat)} :
    dss.mapM socketNumber = .error f ↔
      f = .defect .numeralTooLong ∧ ∃ ds ∈ dss, 4300 < ds.length := by
  induction dss with
  | nil => simp [pure, Except.pure]
  | cons ds dss ih =>
    have hrest : (∃ a, socketNumber ds = .ok a ∧
        (dss.mapM socketNumber >>= fun as => pure (a :: as)) = .error f) ↔
        (∃ a, socketNumber ds = .ok a) ∧ dss.mapM socketNumber = .error f := by
      simp [bind_eq_error, pure, Except.pure]
    rw [List.mapM_cons, bind_eq_error, hrest, ih]
    cases hs : socketNumber ds with
    | ok a =>
      have hn : ¬ 4300 < ds.length := fun hl => by
        rw [socketNumber_eq_error.2 ⟨rfl, hl⟩] at hs
        cases hs
      simp [hn]
    | error e =>
      obtain ⟨rfl, hl⟩ := socketNumber_eq_error.1 hs
      simp [hl, eq_comm]

theorem exists_mem_filterMap {names : List String} {digits? : String → Option (List Nat)} :
    (∃ ds ∈ names.filterMap digits?, 4300 < ds.length) ↔
      ∃ name ∈ names, ∃ ds, digits? name = some ds ∧ 4300 < ds.length := by
  simp only [List.mem_filterMap]
  constructor
  · rintro ⟨ds, ⟨name, hm, hd⟩, hl⟩
    exact ⟨name, hm, ds, hd, hl⟩
  · rintro ⟨name, hm, ds, hd, hl⟩
    exact ⟨ds, ⟨name, hm, hd⟩, hl⟩

end Block

namespace ValueRule

variable {b : Block ρ}

theorem numberOf_of_large {n : Int} (hn : b.field? "NUM" = some (.int n))
    (hl : 2 ^ 1024 - 2 ^ 970 ≤ n.natAbs) : numberOf b = .error (.defect .numberTooLarge) := by
  rw [numberOf, hn]
  dsimp only
  rw [(Binary64.ofInt?_eq_none_iff n).2 hl]
  rfl

theorem slotCount_of_long {socket : String} {digits : List Nat}
    (hs : socket ∈ Table.keys b.values) (hd : Catalog.socketDigits? "ADD" socket = some digits)
    (hl : 4300 < digits.length) : slotCount b = .error (.defect .numeralTooLong) :=
  bind_eq_error.2 (.inl (Block.mapM_socketNumber_eq_error.2
    ⟨rfl, Block.exists_mem_filterMap.2 ⟨socket, hs, digits, hd, hl⟩⟩))

end ValueRule

namespace StatementRule

variable {b : Block ρ} {f : Fault}

theorem kind_of_branches {kind : String} (h : ofKind? kind = some .branches) :
    kind = "controls_if" := by
  have hm := Table.mem_of_get? h
  simpa [table, fixed, call, moveTo, stateReference] using hm

theorem branchIndices_error (hk : b.kind = "controls_if") (h : branchIndices b = .error f) :
    b.Explains f := by
  rcases bind_eq_error.1 h with h | ⟨count, hc, h⟩
  · obtain ⟨_, -, -, rfl⟩ := Block.count_eq_error h
    exact .of_rule _
  · rcases bind_eq_error.1 h with h | ⟨_, -, h⟩
    · obtain ⟨rfl, hd⟩ := Block.mapM_socketNumber_eq_error.1 h
      obtain ⟨socket, hs, digits, hd, hl⟩ := Block.exists_mem_filterMap.1 hd
      exact .inr ⟨_, rfl, .branch hk hc hs hd hl⟩
    · cases h

theorem branchIndices_of_long {socket : String} {digits : List Nat} {count : Nat}
    (hc : b.count "elseIfCount" = .ok count) (hs : socket ∈ b.sockets)
    (hd : branchDigits? socket = some digits) (hl : 4300 < digits.length) :
    branchIndices b = .error (.defect .numeralTooLong) := by
  refine bind_eq_error.2 (.inr ⟨count, hc, bind_eq_error.2 (.inl ?_)⟩)
  exact Block.mapM_socketNumber_eq_error.2
    ⟨rfl, Block.exists_mem_filterMap.2 ⟨socket, hs, digits, hd, hl⟩⟩

end StatementRule

end BlockMachine
