import BlockMachine.Proofs.Workspace.Reading

namespace BlockMachine.Workspace

def isUnsearchable : Json → Bool
  | .arr _ => true
  | .obj _ => true
  | _ => false

mutual
/-- The reading of a block gets stuck in its sockets, or at the block below when all else is
read. -/
inductive Stuck : Json → Bool → Prop
  | sockets {members es : Table Json} {hs : sizeOf es < sizeOf (Json.obj members)} {shadow : Bool}
    {kind : Json} :
    Table.get? members "type" = some kind → inputs members = .ok ⟨es, hs⟩ →
    StuckSockets (member members "id") kind es → Stuck (.obj members) shadow
  | next {members es : Table Json} {hs : sizeOf es < sizeOf (Json.obj members)} {shadow : Bool}
    {kind : Json} {sockets : Table (Option Tree) × Table (Option Tree)} {l : Label}
    {p : Plugged (.obj members)} :
    Table.get? members "type" = some kind → inputs members = .ok ⟨es, hs⟩ →
    readSockets (member members "id") kind es = .ok sockets → label members shadow = .ok l →
    below l members = .ok (some p) → Stuck p.raw p.shadow → Stuck (.obj members) shadow

/-- A socket is stuck, behind others that are read, or it is read and the kind of its block cannot
be looked up. -/
inductive StuckSockets : Json → Json → Table Json → Prop
  | kind {id kind c : Json} {socket : String} {rest : Table Json} {p : Option (Plugged c)}
    {child : Option Tree} :
    isUnsearchable kind = true → connection id kind c = .ok p → Holds p child →
    StuckSockets id kind ((socket, c) :: rest)
  | socket {id kind c : Json} {socket : String} {rest : Table Json} {p : Plugged c} :
    connection id kind c = .ok (some p) → Stuck p.raw p.shadow →
    StuckSockets id kind ((socket, c) :: rest)
  | later {id kind c : Json} {socket : String} {rest : Table Json} {p : Option (Plugged c)}
    {child : Option Tree} {isStatement : Bool} :
    connection id kind c = .ok p → Holds p child →
    isStatementSocket kind socket = .ok isStatement → StuckSockets id kind rest →
    StuckSockets id kind ((socket, c) :: rest)
end

/-- A block at the top is stuck, and those before it are read. -/
inductive StuckBlocks : List Json → Prop
  | here {raw : Json} {rest : List Json} : Stuck raw false → StuckBlocks (raw :: rest)
  | later {raw : Json} {rest : List Json} {t : Tree} :
    readTree raw false = .ok t → StuckBlocks rest → StuckBlocks (raw :: rest)

inductive StuckDocument : Json → Prop
  | mk {members inner : Table Json} {raws : List Json} :
    (Table.get? members "blocks").getD (.obj []) = .obj inner →
    (Table.get? inner "blocks").getD (.arr []) = .arr raws → StuckBlocks raws →
    StuckDocument (.obj members)

theorem isStatementSocket_eq_error {kind : Json} {socket : String} {f : Fault} :
    isStatementSocket kind socket = .error f ↔
      f = .defect .unsearchableKind ∧ isUnsearchable kind = true := by
  cases kind <;> simp [isStatementSocket, isUnsearchable, eq_comm]

section Faults

variable {f : Fault}

/-- The fault is told to the author as one of the format. -/
def IsFormat (f : Fault) : Prop := ∃ g, f = .format g

theorem isFormat_connection {id kind c : Json} (h : connection id kind c = .error f) :
    IsFormat f := by
  cases c <;> cases h <;> exact ⟨_, rfl⟩

theorem isFormat_inputs {members : Table Json} (h : inputs members = .error f) : IsFormat f := by
  rw [inputs] at h
  split at h
  · cases h
  · cases h
  · split at h
    · cases h
      exact ⟨_, rfl⟩
    · cases h

theorem isFormat_label {members : Table Json} {shadow : Bool}
    (h : label members shadow = .error f) : IsFormat f := by
  rw [label] at h
  split at h
  · cases h
  · cases h
    exact ⟨_, rfl⟩

theorem isFormat_below {l : Label} {members : Table Json} (h : below l members = .error f) :
    IsFormat f := by
  rw [below] at h
  split at h
  · cases h
  · split at h
    · exact isFormat_connection (map_eq_error.1 h)
    · cases h

/-- A fault of reading a block is one of the format, unless the reading is stuck. -/
def Accounted (f : Fault) (stuck : Prop) : Prop :=
  IsFormat f ∨ f = .defect .unsearchableKind ∧ stuck

theorem Accounted.imp {p q : Prop} (h : Accounted f p) (hpq : p → q) : Accounted f q :=
  h.imp_right fun h => ⟨h.1, hpq h.2⟩

theorem accounted : CoversFailures (fun raw shadow f => Accounted f (Stuck raw shadow))
    (fun id kind entries f => Accounted f (StuckSockets id kind entries)) where
  untyped _ _ := .inl ⟨_, rfl⟩
  ofInputs h := .inl (isFormat_inputs h)
  ofSockets hk hi h := h.imp (.sockets hk hi)
  ofLabel h := .inl (isFormat_label h)
  ofBelow _ h := .inl (isFormat_below h)
  next hk hi hs hl hp h := h.imp (.next hk hi hs hl hp)
  ofConnection h := .inl (isFormat_connection h)
  plugged hp h := h.imp (.socket hp)
  ofKind hp hc h := by
    obtain ⟨rfl, hk⟩ := isStatementSocket_eq_error.1 h
    exact .inr ⟨rfl, .kind hk hp hc⟩
  later hp hc hs h := h.imp (.later hp hc hs)

theorem accounted_blocks {raws : List Json} (h : readBlocks raws = .error f) :
    Accounted f (StuckBlocks raws) := by
  induction raws with
  | nil => cases h
  | cons raw raws ih =>
    rcases bind_eq_error.1 h with h | ⟨t, ht, h⟩
    · exact (accounted.of_tree h).imp .here
    rcases bind_eq_error.1 h with h | ⟨_, _, h⟩
    · exact (ih h).imp (.later ht)
    · cases h

theorem accounted_document {document : Json} (h : read document = .error f) :
    Accounted f (StuckDocument document) := by
  rw [read.eq_def] at h
  split at h
  · rename_i members
    split at h
    · rename_i inner hinner
      split at h
      · rename_i raws hraws
        exact (accounted_blocks (map_eq_error.1 h)).imp (.mk hinner hraws)
      · cases h
        exact .inl ⟨_, rfl⟩
    · cases h
      exact .inl ⟨_, rfl⟩
  · cases h
    exact .inl ⟨_, rfl⟩

end Faults

section Stuck

mutual
theorem Stuck.fails {raw : Json} {shadow : Bool} :
    Stuck raw shadow → readTree raw shadow = .error (.defect .unsearchableKind)
  | .sockets hk hi hstuck => by
    rw [readTree, hk]
    exact bind_eq_error.2 (.inr ⟨_, hi, bind_eq_error.2 (.inl hstuck.fails)⟩)
  | .next hk hi hs hl hp hstuck => by
    rw [readTree, hk]
    refine bind_eq_error.2 (.inr ⟨_, hi, bind_eq_error.2 (.inr ⟨_, hs, ?_⟩)⟩)
    refine bind_eq_error.2 (.inr ⟨_, hl, bind_eq_error.2 (.inr ⟨_, hp, ?_⟩)⟩)
    exact bind_eq_error.2 (.inl hstuck.fails)

theorem StuckSockets.fails {id kind : Json} {entries : Table Json} :
    StuckSockets id kind entries →
      readSockets id kind entries = .error (.defect .unsearchableKind)
  | .kind hk hp hc =>
    have hs := isStatementSocket_eq_error.2 ⟨rfl, hk⟩
    readSockets_cons_eq_error_iff.2 (.inr (.inr ⟨_, _, hp, hc, .inl hs⟩))
  | .socket hp hstuck => readSockets_cons_eq_error_iff.2 (.inr (.inl ⟨_, hp, hstuck.fails⟩))
  | .later hp hc hs hstuck =>
    readSockets_cons_eq_error_iff.2 (.inr (.inr ⟨_, _, hp, hc, .inr ⟨_, hs, hstuck.fails⟩⟩))
end

theorem StuckBlocks.fails {raws : List Json} (h : StuckBlocks raws) :
    readBlocks raws = .error (.defect .unsearchableKind) := by
  induction h with
  | here hstuck => exact bind_eq_error.2 (.inl hstuck.fails)
  | later ht _ ih => exact bind_eq_error.2 (.inr ⟨_, ht, bind_eq_error.2 (.inl ih)⟩)

theorem StuckDocument.fails {document : Json} (h : StuckDocument document) :
    read document = .error (.defect .unsearchableKind) := by
  obtain ⟨hinner, hraws, hstuck⟩ := h
  rw [read.eq_def]
  dsimp only
  rw [hinner]
  dsimp only
  rw [hraws]
  exact map_eq_error.2 hstuck.fails

end Stuck

section Place

/-- A saved block with a socket, whose kind is a list or an object. -/
structure IsSnag (members : Table Json) : Prop where
  kind : ∃ kind, Table.get? members "type" = some kind ∧ isUnsearchable kind = true
  inputs : ∃ es, es ≠ [] ∧ Table.get? members "inputs" = some (.obj es)

def HasSnag (j : Json) : Prop := ∃ members, Json.Inside (.obj members) j ∧ IsSnag members

theorem HasSnag.of_inside {j k : Json} (h : HasSnag j) (hjk : j.Inside k) : HasSnag k := by
  obtain ⟨members, hm, hs⟩ := h
  exact ⟨members, hm.trans hjk, hs⟩

mutual
theorem Stuck.hasSnag {raw : Json} {shadow : Bool} : Stuck raw shadow → HasSnag raw
  | .sockets hk hi hstuck => by
    have hsnag := hstuck.hasSnag
    rcases inputs_cases hi with rfl | hg
    · cases hstuck
    rcases hsnag with hu | ⟨e, he, hs⟩
    · refine ⟨_, .refl, ⟨_, hk, hu⟩, _, ?_, hg⟩
      rintro rfl
      cases hstuck
    · have hin : e.2.Inside _ := .member he .refl
      exact hs.of_inside (hin.trans (Json.inside_of_get? hg))
  | .next _ _ _ _ hp hstuck => hstuck.hasSnag.of_inside (inside_of_below hp)

theorem StuckSockets.hasSnag {id kind : Json} {entries : Table Json} :
    StuckSockets id kind entries → isUnsearchable kind = true ∨ ∃ e ∈ entries, HasSnag e.2
  | .kind hk _ _ => .inl hk
  | .socket hp hstuck =>
    .inr ⟨_, List.mem_cons_self, hstuck.hasSnag.of_inside (inside_of_connection hp)⟩
  | .later _ _ _ hstuck =>
    hstuck.hasSnag.imp_right fun ⟨e, he, hs⟩ => ⟨e, List.mem_cons_of_mem _ he, hs⟩
end

theorem StuckBlocks.hasSnag {raws : List Json} (h : StuckBlocks raws) :
    ∃ raw ∈ raws, HasSnag raw := by
  induction h with
  | here hstuck => exact ⟨_, List.mem_cons_self, hstuck.hasSnag⟩
  | later _ _ ih =>
    obtain ⟨raw, hm, hs⟩ := ih
    exact ⟨raw, List.mem_cons_of_mem _ hm, hs⟩

theorem StuckDocument.hasSnag {document : Json} (h : StuckDocument document) :
    HasSnag document := by
  obtain ⟨hinner, hraws, hstuck⟩ := h
  obtain ⟨raw, hm, hs⟩ := hstuck.hasSnag
  exact hs.of_inside (inside_of_sections hinner hraws hm)

end Place

/-- A document is read, or rejected for its format, unless the reading gets stuck; then some block
in it has a kind that is a list or an object. -/
theorem read_outcome (document : Json) :
    ((∃ w, read document = .ok w) ∨ (∃ f, read document = .error (.format f)) ∨
      read document = .error (.defect .unsearchableKind) ∧ HasSnag document) ∧
    (read document = .error (.defect .unsearchableKind) ↔ StuckDocument document) := by
  refine ⟨?_, fun h => ?_, StuckDocument.fails⟩
  · cases h : read document with
    | ok w => exact .inl ⟨w, rfl⟩
    | error f =>
      rcases accounted_document h with ⟨g, rfl⟩ | ⟨rfl, hstuck⟩
      · exact .inr (.inl ⟨g, rfl⟩)
      · exact .inr (.inr ⟨rfl, hstuck.hasSnag⟩)
  · rcases accounted_document h with ⟨g, hg⟩ | ⟨_, hstuck⟩
    · cases hg
    · exact hstuck

/-- A block of the kind `["a"]`, with an empty socket. -/
def listKind : Json :=
  .obj [("blocks", .obj [("blocks", .arr [.obj [("type", .arr [.str "a"]),
    ("inputs", .obj [("A", .obj [])])]])])]

theorem listKind_stuck : read listKind = .error (.defect .unsearchableKind) := by
  with_unfolding_all rfl

end BlockMachine.Workspace
