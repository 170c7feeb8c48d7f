import BlockMachine.Proofs.Option
import BlockMachine.Proofs.Workspace.Reading

namespace BlockMachine.Workspace

theorem fields?_obj (es : Table Json) :
    fields? (.obj es) = es.mapM fun e => (fieldValue? e.2).map (e.1, ·) := by
  cases es <;> rfl

theorem mapM_fields_cons {e : String × Json} {es : Table Json} {fs : Table FieldValue} :
    (e :: es).mapM (fun e => (fieldValue? e.2).map (e.1, ·)) = some fs ↔
      ∃ v fs', fieldValue? e.2 = some v ∧
        es.mapM (fun e => (fieldValue? e.2).map (e.1, ·)) = some fs' ∧ fs = (e.1, v) :: fs' := by
  rw [List.mapM_cons]
  cases fieldValue? e.2 with
  | none => simp
  | some v => cases es.mapM (fun e => (fieldValue? e.2).map (e.1, ·)) <;> simp [eq_comm]

theorem get?_of_fields? {es : Table Json} {fs : Table FieldValue}
    (h : fields? (.obj es) = some fs) (name : String) :
    Table.get? fs name = (Table.get? es name).bind fieldValue? := by
  rw [fields?_obj] at h
  induction es generalizing fs with
  | nil =>
    cases h
    rfl
  | cons e es ih =>
    obtain ⟨v, fs', hv, hs, rfl⟩ := mapM_fields_cons.1 h
    obtain ⟨key, j⟩ := e
    rw [Table.get?_cons, Table.get?_cons, ih hs]
    split
    · exact hv.symm
    · rfl

theorem exists_fields?_iff (es : Table Json) :
    (∃ fs, fields? (.obj es) = some fs) ↔ ∀ e ∈ es, ∃ v, fieldValue? e.2 = some v := by
  rw [fields?_obj]
  induction es with
  | nil => exact ⟨fun _ => nofun, fun _ => ⟨[], rfl⟩⟩
  | cons e es ih =>
    rw [List.forall_mem_cons, ← ih]
    constructor
    · rintro ⟨fs, h⟩
      obtain ⟨v, fs', hv, hs, -⟩ := mapM_fields_cons.1 h
      exact ⟨⟨v, hv⟩, fs', hs⟩
    · rintro ⟨⟨v, hv⟩, fs', hs⟩
      exact ⟨_, mapM_fields_cons.2 ⟨v, fs', hv, hs, rfl⟩⟩

theorem exists_fields?_of_get? {es es' : Table Json} (hn' : (Table.keys es').Nodup)
    (h : ∀ name, Table.get? es name = Table.get? es' name)
    (hf : ∃ fs, fields? (.obj es) = some fs) : ∃ fs, fields? (.obj es') = some fs := by
  rw [exists_fields?_iff] at hf ⊢
  intro e he
  have hg : Table.get? es e.1 = some e.2 := by
    rw [h]
    exact Table.get?_of_mem hn' he
  exact hf _ (Table.mem_of_get? hg)

theorem distinct_member {members : Table Json} (hd : (Json.obj members).Distinct) (key : String) :
    (member members key).Distinct := by
  rw [member]
  cases hg : Table.get? members key with
  | none => exact .null
  | some j => exact hd.of_get? hg

/-- The block that a connection holds, as a block of its own or as a shadow. -/
def held? (c : Json) : Option Json :=
  ((c.get? "block").filter (!·.isNull)).or ((c.get? "shadow").filter (!·.isNull))

theorem raw_present? (source : Json) (key : String) :
    (present? source key).map (·.1) = (source.get? key).filter (!·.isNull) := by
  cases source with
  | obj members =>
    rw [present?, Json.get?]
    split
    · rename_i h
      rw [h]
      rfl
    · rename_i h
      rw [h]
      rfl
    · rename_i j hj h
      change some j = _
      rw [h]
      cases j with
      | null => exact absurd rfl hj
      | _ => rfl
  | _ => rfl

theorem raw_plugged? (c : Json) : (plugged? c).map (·.raw) = held? c := by
  have hb := raw_present? c "block"
  have hs := raw_present? c "shadow"
  rw [plugged?, held?, ← hb, ← hs]
  cases present? c "block" with
  | some j => rfl
  | none => cases present? c "shadow" <;> rfl

/-- The tree of what a connection holds, if it holds anything. -/
def readChild (id kind c : Json) : Except Fault (Option Tree) := do
  match ← connection id kind c with
  | none => return none
  | some ⟨raw, shadow, _⟩ => return some (← readTree raw shadow)

theorem readChild_eq {id kind : Json} {members : Table Json} :
    readChild id kind (.obj members) =
      match plugged? (.obj members) with
      | none => .ok none
      | some p => (readTree p.raw p.shadow).map some := by
  rw [readChild, connection]
  cases plugged? (.obj members) <;> rfl

theorem readSockets_cons_eq_ok {id c : Json} {kind socket : String} {rest : Table Json}
    {sockets : Table (Option Tree) × Table (Option Tree)} :
    readSockets id (.str kind) ((socket, c) :: rest) = .ok sockets ↔
      ∃ child others, readChild id (.str kind) c = .ok child ∧
        readSockets id (.str kind) rest = .ok others ∧
        sockets = joined (Catalog.isStatementSocket kind socket) (socket, child) others := by
  rw [readSockets_cons_eq_ok_iff]
  constructor
  · rintro ⟨p, child, isStatement, others, hp, hc, hs, hr, rfl⟩
    cases hs
    exact ⟨child, others, bind_eq_ok.2 ⟨p, hp, holds_iff.2 hc⟩, hr, rfl⟩
  · rintro ⟨child, others, hc, hr, rfl⟩
    obtain ⟨p, hp, hc⟩ := bind_eq_ok.1 hc
    exact ⟨p, child, _, others, hp, holds_iff.1 hc, rfl, hr, rfl⟩

theorem exists_readSockets_iff {id : Json} {kind : String} (entries : Table Json) :
    (∃ sockets, readSockets id (.str kind) entries = .ok sockets) ↔
      ∀ e ∈ entries, ∃ child, readChild id (.str kind) e.2 = .ok child := by
  induction entries with
  | nil =>
    rw [readSockets]
    exact ⟨fun _ => List.forall_mem_nil _, fun _ => ⟨_, rfl⟩⟩
  | cons e entries ih =>
    obtain ⟨socket, c⟩ := e
    rw [List.forall_mem_cons, ← ih]
    constructor
    · rintro ⟨sockets, h⟩
      obtain ⟨child, others, hc, hr, -⟩ := readSockets_cons_eq_ok.1 h
      exact ⟨⟨child, hc⟩, others, hr⟩
    · rintro ⟨⟨child, hc⟩, others, hr⟩
      exact ⟨_, readSockets_cons_eq_ok.2 ⟨child, others, hc, hr, rfl⟩⟩

/-- The sockets of one side, statements or values. -/
def side (isStatement : Bool) (sockets : Table (Option Tree) × Table (Option Tree)) :
    Table (Option Tree) :=
  if isStatement then sockets.2 else sockets.1

theorem get?_side_joined {isStatement s : Bool} {socket name : String} {child : Option Tree}
    {others : Table (Option Tree) × Table (Option Tree)} :
    Table.get? (side s (joined isStatement (name, child) others)) socket =
      if isStatement = s ∧ socket = name then some child
      else Table.get? (side s others) socket := by
  cases isStatement <;> cases s <;> simp [side, joined, Table.get?_cons]

theorem get?_readSockets {id : Json} {kind : String} {entries : Table Json}
    {sockets : Table (Option Tree) × Table (Option Tree)}
    (h : readSockets id (.str kind) entries = .ok sockets) (s : Bool) (socket : String) :
    Option.Rel (fun c child => readChild id (.str kind) c = .ok child)
      (if Catalog.isStatementSocket kind socket = s then Table.get? entries socket else none)
      (Table.get? (side s sockets) socket) := by
  induction entries generalizing sockets with
  | nil =>
    rw [readSockets] at h
    cases h
    cases s <;> simp [side, Table.get?]
  | cons e entries ih =>
    obtain ⟨name, c⟩ := e
    obtain ⟨child, others, hc, hr, rfl⟩ := readSockets_cons_eq_ok.1 h
    have ih := ih hr
    rw [get?_side_joined, Table.get?_cons]
    by_cases hname : socket = name
    · subst hname
      by_cases hs : Catalog.isStatementSocket kind socket = s
      · rw [if_pos hs, if_pos rfl, if_pos ⟨hs, rfl⟩]
        exact .some hc
      · rw [if_neg hs] at ih ⊢
        rw [if_neg fun h => hs h.1]
        exact ih
    · have hne : ¬(Catalog.isStatementSocket kind name = s ∧ socket = name) := fun h => hname h.2
      rw [if_neg hne, if_neg hname]
      exact ih

section

variable {members inner : Table Json} {l : Label} {c : Json}

theorem below_eq_none (h : Table.get? members "next" = none) : below l members = .ok none := by
  rw [below]
  split
  · rfl
  · rename_i he
    rw [h] at he
    cases he

theorem below_obj (h : Table.get? members "next" = some (.obj inner)) :
    ∃ p, below l members = .ok p ∧ p.map (·.raw) = held? (.obj inner) := by
  rw [below]
  split
  · rename_i he
    rw [h] at he
    cases he
  · rename_i c he
    rw [h] at he
    cases he
    split
    · refine ⟨_, rfl, ?_⟩
      rw [Option.map_map, ← raw_plugged?]
      rfl
    · rename_i ht
      cases inner with
      | nil => exact ⟨none, rfl, rfl⟩
      | cons e inner => exact absurd rfl ht

theorem below_other (h : Table.get? members "next" = some c) (hc : ∀ inner, c ≠ .obj inner) :
    below l members = if c.isTruthy then
      .error (.format (.malformedConnection (.ofText? l.id) (.str l.kind))) else .ok none := by
  rw [below]
  split
  · rename_i he
    rw [h] at he
    cases he
  · rename_i he
    rw [h] at he
    cases he
    split
    · cases c with
      | obj inner => exact absurd rfl (hc inner)
      | _ => rfl
    · rfl

theorem inputs_obj {es : Table Json} (h : Table.get? members "inputs" = some (.obj es)) :
    ∃ hs, inputs members = .ok ⟨es, hs⟩ := by
  have hs : sizeOf es < sizeOf (Json.obj members) := by
    have := sizeOf_lt_of_get? h
    simp only [Json.obj.sizeOf_spec] at this ⊢
    omega
  rw [inputs]
  split
  · rename_i he
    rw [h] at he
    cases he
    exact ⟨hs, rfl⟩
  · rename_i he
    rw [h] at he
    cases he
  · rename_i hn he
    rw [h] at he
    cases he
    exact absurd rfl (hn es)

theorem inputs_other {j : Option Json} (h : Table.get? members "inputs" = j)
    (hj : ∀ es, j ≠ some (.obj es)) :
    inputs members = if (j.getD .null).isTruthy then
        .error (.format (.malformedInputs (member members "id") (member members "type")))
      else .ok ⟨[], sizeOf_nil_lt members⟩ := by
  rw [inputs]
  split
  · rename_i he
    exact absurd (h.symm.trans he) (hj _)
  · rename_i he
    rw [h] at he
    subst he
    rfl
  · rename_i he
    rw [h] at he
    subst he
    rfl

theorem exists_kind_of_readTree {shadow : Bool} {t : Tree}
    (h : readTree (.obj members) shadow = .ok t) :
    ∃ kind, Table.get? members "type" = some (.str kind) := by
  cases t with
  | node l values statements next =>
    have hr := readTree_eq_ok_iff.1 h
    obtain ⟨kind, _, hk, _, _⟩ := hr.sockets
    have hl := (label_eq_ok hr.label).1
    rw [member, hk] at hl
    exact ⟨l.kind, hk.trans (congrArg some hl)⟩

end

theorem readTree_of_not_obj {raw : Json} (h : ∀ members, raw ≠ .obj members) (shadow : Bool) :
    readTree raw shadow = .error (.format (.untypedBlock raw)) := by
  rw [readTree]
  exact h

end BlockMachine.Workspace
