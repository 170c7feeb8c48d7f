import BlockMachine.Proofs.Workspace.Reading
import BlockMachine.Workspace.Writer

namespace BlockMachine

namespace Tree

/-- The connections in the sockets of a saved block, without the empty ones. -/
def plugs (sockets : List (String × Option Tree)) : Table Json :=
  (savedSockets sockets).filterMap fun (socket, child) => child.map (socket, ·)

theorem plugs_nil : plugs [] = [] := by
  rw [plugs, savedSockets, List.filterMap_nil]

theorem plugs_none (socket : String) (sockets : List (String × Option Tree)) :
    plugs ((socket, none) :: sockets) = plugs sockets := by
  rw [plugs, savedSockets, savedPlug]
  rfl

theorem plugs_some (socket : String) (t : Tree) (sockets : List (String × Option Tree)) :
    plugs ((socket, some t) :: sockets) =
      (socket, Saved.connection t.label t.saved) :: plugs sockets := by
  rw [plugs, savedSockets, savedPlug]
  rfl

theorem keys_savedSockets (sockets : List (String × Option Tree)) :
    Table.keys (savedSockets sockets) = Table.keys sockets := by
  induction sockets with
  | nil =>
    rw [savedSockets]
    rfl
  | cons e sockets ih =>
    obtain ⟨socket, child⟩ := e
    rw [savedSockets]
    exact congrArg (List.cons socket) ih

theorem Placed.filled {label : Label} {values statements : Table (Option Tree)}
    {next : Option Tree} (h : Placed (.node label values statements next)) :
    Saved.filled (savedSockets values) (savedSockets statements) =
      plugs values ++ plugs statements := by
  have hn : (Table.keys (savedSockets statements)).Nodup := by
    rw [keys_savedSockets]
    exact h.nodup_statements
  rw [Saved.filled, Table.putAll_of_disjoint hn, List.filterMap_append]
  · rfl
  · rw [keys_savedSockets, keys_savedSockets]
    exact h.disjoint

theorem plugs_pruned {sockets : List (String × Option Tree)}
    (h : ∀ socket t, (socket, some t) ∈ sockets → t.pruned.saved = t.saved) :
    plugs (prunedSockets sockets) = plugs sockets := by
  induction sockets with
  | nil => rw [prunedSockets]
  | cons e sockets ih =>
    obtain ⟨socket, child⟩ := e
    have ih := ih fun s t hm => h s t (List.mem_cons_of_mem _ hm)
    cases child with
    | none => rw [prunedSockets, plugs_none, ih]
    | some t =>
      rw [prunedSockets, plugs_some, plugs_some, ih, label_pruned,
        h socket t List.mem_cons_self]

theorem saved_pruned {t : Tree} (h : t.All Placed) : t.pruned.saved = t.saved := by
  induction h with
  | @node label values statements next hp _ _ _ ihv ihs ihn =>
    have hq := hp.pruned
    rw [pruned] at hq ⊢
    have hn : savedPlug (prunedOption next) = savedPlug next := by
      cases next with
      | none => rw [prunedOption]
      | some t => rw [prunedOption, savedPlug, savedPlug, label_pruned, ihn t rfl]
    rw [saved, saved, hp.filled, hq.filled, plugs_pruned ihv, plugs_pruned ihs, hn]

end Tree

namespace Saved

theorem get?_optional (key other : String) (value : Option Json) :
    Table.get? (optional key value) other = if other = key then value else none := by
  cases value with
  | none => exact (ite_self none).symm
  | some j => exact Table.get?_cons key j []

theorem get?_flatMap_optional {rows : Table (Option Json)} (h : (Table.keys rows).Nodup)
    (key : String) :
    Table.get? (rows.flatMap fun e => optional e.1 e.2) key = (Table.get? rows key).join := by
  induction rows with
  | nil => rfl
  | cons e rows ih =>
    obtain ⟨k, value⟩ := e
    obtain ⟨hk, hn⟩ := List.nodup_cons.1 h
    rw [List.flatMap_cons, Table.get?_append, get?_optional, ih hn, Table.get?_cons]
    by_cases he : key = k
    · have hnone : Table.get? rows k = none := Table.get?_eq_none_iff.2 hk
      rw [if_pos he, if_pos he, he, hnone, Option.join_some, Option.join_none, Option.or_none]
    · rw [if_neg he, if_neg he, Option.none_or]

/-- The members of a saved block, with those that are left out as `none`. -/
def rows (l : Label) (inputs : Table Json) (next : Option Json) : Table (Option Json) :=
  [("type", some (.str l.kind)), ("id", l.id.map .str), ("x", l.x.map .float),
    ("y", l.y.map .float), ("extraState", l.extraState.map .obj),
    ("fields", if l.fields.isEmpty then none
      else some (.obj (l.fields.map fun (name, v) => (name, v.toJson)))),
    ("inputs", if inputs.isEmpty then none else some (.obj inputs)), ("next", next)]

def members (l : Label) (inputs : Table Json) (next : Option Json) : Table Json :=
  (rows l inputs next).flatMap fun e => optional e.1 e.2

variable (l : Label) (inputs : Table Json) (next : Option Json)

theorem block_eq : block l inputs next = .obj (members l inputs next) := by
  have hi : (if inputs.isEmpty then [] else [("inputs", Json.obj inputs)]) =
      optional "inputs" (if inputs.isEmpty then none else some (.obj inputs)) := by
    split <;> rfl
  have hf (j : Json) : (if l.fields.isEmpty then [] else [("fields", j)]) =
      optional "fields" (if l.fields.isEmpty then none else some j) := by
    split <;> rfl
  rw [block, ownMembers, hi, hf]
  simp [members, rows, optional]

theorem get?_members (key : String) :
    Table.get? (members l inputs next) key = (Table.get? (rows l inputs next) key).join := by
  apply get?_flatMap_optional
  simp [rows, Table.keys]

end Saved

theorem Tree.exists_saved (t : Tree) : ∃ ms, t.saved = .obj ms := by
  cases t
  rw [saved]
  exact ⟨_, rfl⟩

namespace Workspace

variable (l : Label) (inputs : Table Json) (next : Option Json)

theorem fieldValue?_toJson (v : FieldValue) : fieldValue? v.toJson = some v := by
  cases v <;> rfl

theorem mapM_fieldValue? (fields : Table FieldValue) :
    (fields.map fun (name, v) => (name, v.toJson)).mapM
      (fun (name, j) => (fieldValue? j).map (name, ·)) = some fields := by
  induction fields with
  | nil => rfl
  | cons e fields ih => simp [List.mapM_cons, fieldValue?_toJson, ih]

theorem fields?_saved (fields : Table FieldValue) :
    fields? ((if fields.isEmpty then none
      else some (.obj (fields.map fun (name, v) => (name, v.toJson)))).getD .null) =
      some fields := by
  cases fields with
  | nil => rfl
  | cons e fields => exact mapM_fieldValue? (e :: fields)

theorem coordinate?_saved (x : Option Binary64) :
    coordinate? ((x.map Json.float).getD .null) = some x := by
  cases x <;> rfl

theorem extraState?_saved (state : Option (Table Json)) :
    extraState? ((state.map Json.obj).getD .null) = some state := by
  cases state <;> rfl

theorem id?_saved (id : Option String) : id? ((id.map Json.str).getD .null) = some id := by
  cases id <;> rfl

theorem label_members : label (Saved.members l inputs next) l.shadow = .ok l := by
  have hm (key : String) : member (Saved.members l inputs next) key =
      (Table.get? (Saved.rows l inputs next) key).join.getD .null := by
    rw [member, Saved.get?_members]
  have hl : label? (Saved.members l inputs next) l.shadow = some l := by
    rw [label?, hm, hm, hm, hm, hm, hm]
    refine Option.bind_eq_some_iff.2 ⟨l.kind, rfl, ?_⟩
    refine Option.bind_eq_some_iff.2 ⟨l.id, id?_saved l.id, ?_⟩
    refine Option.bind_eq_some_iff.2 ⟨l.fields, fields?_saved l.fields, ?_⟩
    refine Option.bind_eq_some_iff.2 ⟨l.extraState, extraState?_saved l.extraState, ?_⟩
    refine Option.bind_eq_some_iff.2 ⟨l.x, coordinate?_saved l.x, ?_⟩
    refine Option.bind_eq_some_iff.2 ⟨l.y, coordinate?_saved l.y, rfl⟩
  rw [label, hl]

theorem inputs_members :
    ∃ es, Workspace.inputs (Saved.members l inputs next) = .ok es ∧ es.1 = inputs := by
  have hg := Saved.get?_members l inputs next "inputs"
  rw [Workspace.inputs]
  cases inputs with
  | nil =>
    split
    · rename_i he
      rw [hg] at he
      cases he
    · exact ⟨_, rfl, rfl⟩
    · rename_i he
      rw [hg] at he
      cases he
  | cons e inputs =>
    split
    · rename_i he
      rw [hg] at he
      cases he
      exact ⟨_, rfl, rfl⟩
    · rename_i he
      rw [hg] at he
      cases he
    · rename_i hn he
      rw [hg] at he
      exact absurd (Option.some.inj he).symm (hn _)

theorem connection_saved (id kind : Json) (t : Tree) :
    ∃ p, connection id kind (Saved.connection t.label t.saved) = .ok (some p) ∧
      p.raw = t.saved ∧ p.shadow = t.label.shadow := by
  obtain ⟨ms, hm⟩ := t.exists_saved
  rw [Saved.connection, hm]
  cases t.label.shadow with
  | true => exact ⟨_, rfl, rfl, rfl⟩
  | false => exact ⟨_, rfl, rfl, rfl⟩

theorem below_members_none : below l (Saved.members l inputs none) = .ok none := by
  have hg := Saved.get?_members l inputs none "next"
  rw [below]
  split
  · rfl
  · rename_i he
    rw [hg] at he
    cases he

theorem below_members_some (t : Tree) :
    ∃ p, below l (Saved.members l inputs (some (Saved.connection t.label t.saved))) =
        .ok (some p) ∧ p.raw = t.saved ∧ p.shadow = t.label.shadow := by
  have hg := Saved.get?_members l inputs (some (Saved.connection t.label t.saved)) "next"
  obtain ⟨q, hq, hr, hs⟩ := connection_saved (.ofText? l.id) (.str l.kind) t
  rw [below]
  split
  · rename_i he
    rw [hg] at he
    cases he
  · rename_i c he
    rw [hg] at he
    cases he
    have ht : (Saved.connection t.label t.saved).isTruthy = true := rfl
    rw [if_pos ht, hq]
    exact ⟨_, rfl, hr, hs⟩

theorem readSockets_plugs {id : Json} {kind : String} {isStatement : Bool}
    {sockets : Table (Option Tree)} {rest : Table Json}
    {others : Table (Option Tree) × Table (Option Tree)}
    (hs : ∀ socket ∈ Table.keys sockets, Catalog.isStatementSocket kind socket = isStatement)
    (ht : ∀ socket t, (socket, some t) ∈ sockets → readTree t.saved t.label.shadow = .ok t.pruned)
    (hr : readSockets id (.str kind) rest = .ok others) :
    readSockets id (.str kind) (Tree.plugs sockets ++ rest) =
      .ok ((Tree.prunedSockets sockets).foldr (joined isStatement) others) := by
  induction sockets with
  | nil =>
    rw [Tree.plugs_nil, Tree.prunedSockets]
    exact hr
  | cons e sockets ih =>
    obtain ⟨socket, child⟩ := e
    obtain ⟨hk, hs⟩ := List.forall_mem_cons.1 hs
    have ih := ih hs fun s t hm => ht s t (List.mem_cons_of_mem _ hm)
    cases child with
    | none =>
      rw [Tree.plugs_none, Tree.prunedSockets]
      exact ih
    | some t =>
      have ht := ht socket t List.mem_cons_self
      obtain ⟨p, hp, hraw, hsh⟩ := connection_saved id (.str kind) t
      rw [Tree.plugs_some, Tree.prunedSockets]
      refine readSockets_cons_eq_ok_iff.2 ⟨p, some t.pruned, isStatement, _, hp, .tree ?_,
        congrArg Except.ok hk, ih, rfl⟩
      rw [hraw, hsh]
      exact ht

theorem foldr_joined_values (vs : Table (Option Tree))
    (sockets : Table (Option Tree) × Table (Option Tree)) :
    vs.foldr (joined false) sockets = (vs ++ sockets.1, sockets.2) := by
  induction vs with
  | nil => rfl
  | cons e vs ih => rw [List.foldr_cons, ih]; rfl

theorem foldr_joined_statements (ss : Table (Option Tree))
    (sockets : Table (Option Tree) × Table (Option Tree)) :
    ss.foldr (joined true) sockets = (sockets.1, ss ++ sockets.2) := by
  induction ss with
  | nil => rfl
  | cons e ss ih => rw [List.foldr_cons, ih]; rfl

theorem readTree_saved {t : Tree} (h : t.All Tree.Placed) :
    readTree t.saved t.label.shadow = .ok t.pruned := by
  induction h with
  | @node l values statements next hp _ _ _ ihv ihs ihn =>
    rw [Tree.saved, hp.filled, Saved.block_eq, Tree.pruned]
    obtain ⟨⟨es, hlt⟩, hi, rfl⟩ :=
      inputs_members l (Tree.plugs values ++ Tree.plugs statements) (Tree.savedPlug next)
    refine readTree_eq_ok_iff.2 ⟨⟨.str l.kind, _, Saved.get?_members .., ⟨hlt, hi⟩, ?_⟩,
      label_members .., ?_⟩
    · -- The values were saved before the statements, so they are read in front of them.
      have hnil (id : Json) : readSockets id (.str l.kind) [] = .ok ([], []) := by
        rw [readSockets]
      have hs (id : Json) := readSockets_plugs hp.statements ihs (hnil id)
      have hv (id : Json) := readSockets_plugs hp.values ihv (hs id)
      simp only [List.append_nil, foldr_joined_statements, foldr_joined_values] at hv
      exact hv _
    · cases next with
      | none =>
        rw [Tree.savedPlug, Tree.prunedOption]
        exact ⟨none, below_members_none .., .nothing⟩
      | some t =>
        obtain ⟨p, hb, hraw, hsh⟩ := below_members_some l
          (Tree.plugs values ++ Tree.plugs statements) t
        rw [Tree.savedPlug, Tree.prunedOption]
        refine ⟨some p, hb, .tree ?_⟩
        rw [hraw, hsh]
        exact ihn t rfl

def pruned (w : Workspace) : Workspace := ⟨w.blocks.map Tree.pruned⟩

/-- No stack begins with a shadow, and all sockets are where they belong. -/
def IsPlaced (w : Workspace) : Prop :=
  ∀ t ∈ w.blocks, t.All Tree.Placed ∧ t.label.shadow = false

theorem isPlaced_of_read {document : Json} {w : Workspace} (hd : document.Distinct)
    (h : read document = .ok w) : w.IsPlaced := by
  intro t ht
  obtain ⟨raw, hi, hr⟩ := exists_raw_of_read h t ht
  exact ⟨all_placed (hi.distinct hd) hr, readTree_shadow hr⟩

theorem readBlocks_saved {ts : List Tree}
    (h : ∀ t ∈ ts, t.All Tree.Placed ∧ t.label.shadow = false) :
    readBlocks (ts.map Tree.saved) = .ok (ts.map Tree.pruned) := by
  induction ts with
  | nil => rfl
  | cons t ts ih =>
    obtain ⟨⟨hp, hs⟩, h⟩ := List.forall_mem_cons.1 h
    have ht := readTree_saved hp
    rw [hs] at ht
    exact bind_eq_ok.2 ⟨_, ht, bind_eq_ok.2 ⟨_, ih h, rfl⟩⟩

variable {w : Workspace}

theorem read_save (h : w.IsPlaced) : read w.save = .ok w.pruned :=
  map_eq_ok.2 ⟨_, readBlocks_saved h, rfl⟩

theorem save_pruned (h : w.IsPlaced) : w.pruned.save = w.save := by
  rw [save, pruned, List.map_map, save]
  congr 1
  exact List.map_congr_left fun t ht => Tree.saved_pruned (h t ht).1

/-- What is saved is read back as the workspace without its empty sockets, and saving that again
gives the same document. -/
theorem reread_saved {document : Json} (hd : document.Distinct) (h : read document = .ok w) :
    read w.save = .ok w.pruned ∧ (read w.save).map save = .ok w.save := by
  have hp := isPlaced_of_read hd h
  refine ⟨read_save hp, ?_⟩
  rw [read_save hp]
  exact congrArg Except.ok (save_pruned hp)

/-- A branch with a shadow for its condition, two blocks as its body, and an empty socket for the
condition of another branch. -/
def sparse : Workspace :=
  let condition : Label := { kind := "logic_boolean", fields := [("BOOL", .text "TRUE")] }
  let last : Tree := .node { kind := "api_stop", id := some "last" } [] [] none
  ⟨[.node { kind := "controls_if" }
    [("IF0", some (.node { condition with shadow := true } [] [] none)), ("IF1", none)]
    [("DO0", some (.node { kind := "api_fire" } [] [] (some last)))] none]⟩

def sparseDocument : Json :=
  .obj [("blocks", .obj [("blocks", .arr [.obj [("type", .str "controls_if"), ("inputs", .obj [
    ("DO0", .obj [("block", .obj [("type", .str "api_fire"),
      ("next", .obj [("block", .obj [("type", .str "api_stop"), ("id", .str "last")])])])]),
    ("IF0", .obj [("shadow", .obj [("type", .str "logic_boolean"),
      ("fields", .arr [.arr [.str "BOOL", .str "TRUE"]])])]),
    ("IF1", .obj [])])]])])]

theorem reread_sparse :
    sparseDocument.Distinct ∧ read sparseDocument = .ok sparse ∧
      read sparse.save = .ok sparse.pruned ∧ (read sparse.save).map save = .ok sparse.save := by
  have hd : sparseDocument.Distinct := by simp [sparseDocument, Table.keys]
  have hr : read sparseDocument = .ok sparse := by with_unfolding_all rfl
  exact ⟨hd, hr, reread_saved hd hr⟩

end Workspace
end BlockMachine
