import BlockMachine.Compiler.Document
import BlockMachine.Proofs.Block.Redrawing
import BlockMachine.Proofs.Workspace.Members
import BlockMachine.Proofs.Workspace.RoundTrip

namespace BlockMachine.Workspace

/-- Two connections that hold related blocks. -/
inductive Rewired (R : Json → Json → Prop) : Json → Json → Prop
  | same (c : Json) : Rewired R c c
  | held {members members' : Table Json} :
    Option.Rel R (held? (.obj members)) (held? (.obj members')) →
    Rewired R (.obj members) (.obj members')

/-- The inputs of two blocks: related connections in the same sockets. -/
inductive Rearranged (R : Json → Json → Prop) : Option Json → Option Json → Prop
  | same (inputs : Option Json) : Rearranged R inputs inputs
  | entries {es es' : Table Json} :
    (∀ socket, Option.Rel (Rewired R) (Table.get? es socket) (Table.get? es' socket)) →
    Rearranged R (some (.obj es)) (some (.obj es'))

/-- The fields of two blocks. Only those that are saved as an object may be in another order. -/
inductive Shuffled : Json → Json → Prop
  | same (fields : Json) : Shuffled fields fields
  | entries {es es' : Table Json} : (∀ name, Table.get? es name = Table.get? es' name) →
    Shuffled (.obj es) (.obj es')

/-- The same, or something else that can be read just as well. -/
def Replaced {α : Type} (read? : Json → Option α) (j j' : Json) : Prop :=
  j = j' ∨ (read? j).isSome ∧ (read? j').isSome

/-- What two saved blocks have of their own, up to what only the editor cares for. -/
structure RedrawnMembers (members members' : Table Json) : Prop where
  kind : Table.get? members "type" = Table.get? members' "type"
  id : Replaced id? (member members "id") (member members' "id")
  x : Replaced coordinate? (member members "x") (member members' "x")
  y : Replaced coordinate? (member members "y") (member members' "y")
  fields : Shuffled (member members "fields") (member members' "fields")
  extraState : (member members "extraState").Reordered (member members' "extraState")

/-- Two saved blocks that differ, with all that they hold, in what only the editor cares for. -/
inductive Redrawn : Json → Json → Prop
  | same (raw : Json) : Redrawn raw raw
  | block {members members' : Table Json} : RedrawnMembers members members' →
    Rearranged Redrawn (Table.get? members "inputs") (Table.get? members' "inputs") →
    Option.Rel (Rewired Redrawn) (Table.get? members "next") (Table.get? members' "next") →
    Redrawn (.obj members) (.obj members')

/-- Two documents whose blocks at the top differ so. -/
inductive RedrawnDocument : Json → Json → Prop
  | same (document : Json) : RedrawnDocument document document
  | blocks {members members' inner inner' : Table Json} {raws raws' : List Json} :
    Table.get? members "blocks" = some (.obj inner) →
    Table.get? members' "blocks" = some (.obj inner') →
    Table.get? inner "blocks" = some (.arr raws) →
    Table.get? inner' "blocks" = some (.arr raws') →
    List.Forall₂ Redrawn raws raws' → RedrawnDocument (.obj members) (.obj members')

theorem RedrawnMembers.refl (members : Table Json) : RedrawnMembers members members :=
  ⟨rfl, .inl rfl, .inl rfl, .inl rfl, .same _, .same _⟩

theorem Redrawn.members {members members' : Table Json}
    (h : Redrawn (.obj members) (.obj members')) :
    RedrawnMembers members members' ∧
      Rearranged Redrawn (Table.get? members "inputs") (Table.get? members' "inputs") ∧
      Option.Rel (Rewired Redrawn) (Table.get? members "next") (Table.get? members' "next") := by
  cases h with
  | same => exact ⟨.refl members, .same _, rel_same .same _⟩
  | block hm hi hn => exact ⟨hm, hi, hn⟩

section

variable {members members' : Table Json} {l l' : Label} {j j' : Json}

theorem Replaced.rel {α : Type} {read? : Json → Option α} (h : Replaced read? j j') :
    Option.Rel (fun _ _ => True) (read? j) (read? j') := by
  rcases h with rfl | ⟨hj, hj'⟩
  · cases read? j with
    | none => exact .none
    | some a => exact .some trivial
  · obtain ⟨a, ha⟩ := Option.isSome_iff_exists.1 hj
    obtain ⟨b, hb⟩ := Option.isSome_iff_exists.1 hj'
    rw [ha, hb]
    exact .some trivial

theorem Shuffled.rel (h : Shuffled j j') (hd : j.Distinct) (hd' : j'.Distinct) :
    Option.Rel (fun fs fs' => ∀ name, Table.get? fs name = Table.get? fs' name) (fields? j)
      (fields? j') := by
  cases h with
  | same =>
    cases fields? j with
    | none => exact .none
    | some fs => exact .some fun _ => rfl
  | @entries es es' h =>
    have hn := (Json.distinct_obj_iff.1 hd).1
    have hn' := (Json.distinct_obj_iff.1 hd').1
    have hi := exists_fields?_of_get? hn' h
    have hi' := exists_fields?_of_get? hn fun name => (h name).symm
    cases hf : fields? (.obj es) with
    | none =>
      cases hf' : fields? (.obj es') with
      | none => exact .none
      | some fs' =>
        obtain ⟨fs, hs⟩ := hi' ⟨fs', hf'⟩
        rw [hf] at hs
        cases hs
    | some fs =>
      obtain ⟨fs', hf'⟩ := hi ⟨fs, hf⟩
      rw [hf']
      refine .some fun name => ?_
      rw [get?_of_fields? hf, get?_of_fields? hf', h]

theorem rel_extraState? (h : j.Reordered j') :
    Option.Rel (fun s s' : Option (Table Json) => ∀ key, Option.Rel Json.Reordered
      (Table.get? (s.getD []) key) (Table.get? (s'.getD []) key))
      (extraState? j) (extraState? j') := by
  cases h with
  | same =>
    cases extraState? j with
    | none => exact .none
    | some s => exact .some fun key => rel_same .same _
  | arr _ => exact .none
  | obj h => exact .some h

theorem RedrawnMembers.label? (h : RedrawnMembers members members')
    (hd : (Json.obj members).Distinct) (hd' : (Json.obj members').Distinct)
    (shadow shadow' : Bool) :
    Option.Rel Label.Redrawn (label? members shadow) (label? members' shadow') := by
  have hk : Option.Rel Eq (kind? (member members "type")) (kind? (member members' "type")) := by
    rw [member, member, h.kind]
    cases kind? ((Table.get? members' "type").getD .null) with
    | none => exact .none
    | some k => exact .some rfl
  have hf := h.fields.rel (distinct_member hd _) (distinct_member hd' _)
  refine rel_bind hk fun kind kind' hk => rel_bind h.id.rel fun _ _ _ => ?_
  refine rel_bind hf fun _ _ hf => rel_bind (rel_extraState? h.extraState) fun _ _ hs => ?_
  refine rel_bind h.x.rel fun _ _ _ => rel_bind h.y.rel fun _ _ _ => ?_
  exact .some ⟨hk, hf, hs⟩

theorem RedrawnMembers.label (h : RedrawnMembers members members')
    (hd : (Json.obj members).Distinct) (hd' : (Json.obj members').Distinct)
    (shadow shadow' : Bool) :
    Tree.redrawing.Answers Label.Redrawn (label members shadow) (label members' shadow') := by
  have hl := h.label? hd hd' shadow shadow'
  rw [Workspace.label, Workspace.label]
  generalize Workspace.label? members shadow = x at hl ⊢
  generalize Workspace.label? members' shadow' = y at hl ⊢
  cases hl with
  | none => exact .error trivial
  | some hl => exact .ok hl

theorem answers_below_obj {inner inner' : Table Json}
    (hg : Table.get? members "next" = some (.obj inner))
    (hg' : Table.get? members' "next" = some (.obj inner'))
    (h : Option.Rel Redrawn (held? (.obj inner)) (held? (.obj inner'))) :
    Tree.redrawing.Answers (Option.Rel fun p p' => Redrawn p.raw p'.raw) (below l members)
      (below l' members') := by
  obtain ⟨p, hp, hraw⟩ := below_obj (l := l) hg
  obtain ⟨p', hp', hraw'⟩ := below_obj (l := l') hg'
  rw [← hraw, ← hraw'] at h
  rw [hp, hp']
  exact .ok (rel_of_map h)

theorem answers_below
    (h : Option.Rel (Rewired Redrawn) (Table.get? members "next") (Table.get? members' "next")) :
    Tree.redrawing.Answers (Option.Rel fun p p' => Redrawn p.raw p'.raw) (below l members)
      (below l' members') := by
  cases hg : Table.get? members "next" with
  | none =>
    cases hg' : Table.get? members' "next" with
    | none =>
      rw [below_eq_none hg, below_eq_none hg']
      exact .ok .none
    | some c' =>
      rw [hg, hg'] at h
      cases h
  | some c =>
    obtain ⟨c', hg'⟩ := exists_of_rel_right h hg
    rw [hg, hg'] at h
    cases h with
    | some h =>
      cases h with
      | held h => exact answers_below_obj hg hg' h
      | same =>
        cases c with
        | obj inner => exact answers_below_obj hg hg' (rel_same .same _)
        | _ =>
          rw [below_other hg nofun, below_other hg' nofun]
          split
          · exact .error trivial
          · exact .ok .none

theorem answers_inputs
    (h : Rearranged Redrawn (Table.get? members "inputs") (Table.get? members' "inputs")) :
    Tree.redrawing.Answers (fun es es' => ∀ socket,
        Option.Rel (Rewired Redrawn) (Table.get? es.1 socket) (Table.get? es'.1 socket))
      (inputs members) (inputs members') := by
  generalize hg : Table.get? members "inputs" = x at h
  generalize hg' : Table.get? members' "inputs" = y at h
  cases h with
  | entries h =>
    obtain ⟨_, hi⟩ := inputs_obj hg
    obtain ⟨_, hi'⟩ := inputs_obj hg'
    rw [hi, hi']
    exact .ok h
  | same =>
    by_cases hx : ∃ es, x = some (.obj es)
    · obtain ⟨es, rfl⟩ := hx
      obtain ⟨_, hi⟩ := inputs_obj hg
      obtain ⟨_, hi'⟩ := inputs_obj hg'
      rw [hi, hi']
      exact .ok fun socket => rel_same .same _
    · have hn : ∀ es, x ≠ some (.obj es) := fun es he => hx ⟨es, he⟩
      rw [inputs_other hg hn, inputs_other hg' hn]
      split
      · exact .error trivial
      · exact .ok fun _ => .none

end

/-- Blocks smaller than `n` that differ only for the editor are read alike. -/
def ReadAlike (n : Nat) : Prop :=
  ∀ {raw raw' : Json}, sizeOf raw < n → raw.Distinct → raw'.Distinct → Redrawn raw raw' →
    ∀ shadow shadow', Tree.redrawing.Answers Tree.Redrawn (readTree raw shadow)
      (readTree raw' shadow')

section

variable {n : Nat} (ih : ReadAlike n)

include ih

theorem ReadAlike.held {id id' kind kind' : Json} {members members' : Table Json}
    (hn : sizeOf (Json.obj members) ≤ n) (hd : (Json.obj members).Distinct)
    (hd' : (Json.obj members').Distinct)
    (h : Option.Rel Redrawn (held? (.obj members)) (held? (.obj members'))) :
    Tree.redrawing.Answers (Option.Rel Tree.Redrawn) (readChild id kind (.obj members))
      (readChild id' kind' (.obj members')) := by
  rw [← raw_plugged?, ← raw_plugged?] at h
  have hr := rel_of_map h
  rw [readChild_eq, readChild_eq]
  cases hp : plugged? (.obj members) with
  | none =>
    rw [hp] at hr
    generalize plugged? (.obj members') = y at hr ⊢
    cases hr
    exact .ok .none
  | some p =>
    obtain ⟨q, hq⟩ := exists_of_rel_right hr hp
    rw [hp, hq] at hr
    rw [hq]
    cases hr with
    | some hr =>
      have ht := ih (Nat.lt_of_lt_of_le p.smaller hn) ((inside_of_plugged? hp).distinct hd)
        ((inside_of_plugged? hq).distinct hd') hr p.shadow q.shadow
      exact ht.map fun _ _ ht => .some ht

theorem ReadAlike.child {id id' kind kind' c c' : Json} (hn : sizeOf c ≤ n) (hd : c.Distinct)
    (hd' : c'.Distinct) (h : Rewired Redrawn c c') :
    Tree.redrawing.Answers (Option.Rel Tree.Redrawn) (readChild id kind c)
      (readChild id' kind' c') := by
  cases h with
  | same =>
    cases c with
    | obj members => exact ih.held hn hd hd (rel_same .same _)
    | _ => exact .error trivial
  | held h => exact ih.held hn hd hd' h

theorem ReadAlike.sockets {es es' : Table Json} (hn : sizeOf es < n)
    (hd : (Json.obj es).Distinct) (hd' : (Json.obj es').Distinct)
    (h : ∀ socket, Option.Rel (Rewired Redrawn) (Table.get? es socket) (Table.get? es' socket))
    (id id' : Json) (kind : String) :
    Tree.redrawing.Answers (fun sockets sockets' => ∀ s socket, Option.Rel (Option.Rel Tree.Redrawn)
        (Table.get? (side s sockets) socket) (Table.get? (side s sockets') socket))
      (readSockets id (.str kind) es) (readSockets id' (.str kind) es') := by
  have hchild {socket : String} {c c' : Json} (hc : Table.get? es socket = some c)
      (hc' : Table.get? es' socket = some c') :
      Tree.redrawing.Answers (Option.Rel Tree.Redrawn) (readChild id (.str kind) c)
        (readChild id' (.str kind) c') := by
    have hr := h socket
    rw [hc, hc'] at hr
    cases hr with
    | some hr =>
      have hlt := sizeOf_lt_of_get? hc
      exact ih.child (by omega) (hd.of_get? hc) (hd'.of_get? hc') hr
  apply Tree.answers_of_ok_iff
  · -- Every entry of either side has a partner under the same key.
    rw [exists_readSockets_iff, exists_readSockets_iff]
    constructor
    · intro hall e he
      have hc' := Table.get?_of_mem (Json.distinct_obj_iff.1 hd').1 he
      obtain ⟨c, hc⟩ := exists_of_rel_left (h e.1) hc'
      exact (hchild hc hc').exists_ok_iff.1 (hall _ (Table.mem_of_get? hc))
    · intro hall e he
      have hc := Table.get?_of_mem (Json.distinct_obj_iff.1 hd).1 he
      obtain ⟨c', hc'⟩ := exists_of_rel_right (h e.1) hc
      exact (hchild hc hc').exists_ok_iff.2 (hall _ (Table.mem_of_get? hc'))
  · intro sockets sockets' hs hs' s socket
    have hl := get?_readSockets hs s socket
    have hl' := get?_readSockets hs' s socket
    by_cases hk : Catalog.isStatementSocket kind socket = s
    · rw [if_pos hk] at hl hl'
      apply rel_across (h socket) hl hl'
      intro c c' child child' hc hc' hr hr'
      have ha := hchild hc hc'
      rw [hr, hr'] at ha
      cases ha with
      | ok ha => exact ha
    · rw [if_neg hk] at hl hl'
      exact rel_across (.none : Option.Rel Redrawn none none) hl hl' nofun

end

theorem ReadAlike.block {members members' : Table Json} (ih : ReadAlike (sizeOf (Json.obj members)))
    (hd : (Json.obj members).Distinct) (hd' : (Json.obj members').Distinct)
    (h : Redrawn (.obj members) (.obj members')) (shadow shadow' : Bool) :
    Tree.redrawing.Answers Tree.Redrawn (readTree (.obj members) shadow)
      (readTree (.obj members') shadow') := by
  obtain ⟨hm, hi, hn⟩ := h.members
  by_cases hk : ∃ kind, Table.get? members "type" = some (.str kind)
  · obtain ⟨kind, hk⟩ := hk
    have hk' := hm.kind.symm.trans hk
    rw [readTree, readTree, hk, hk']
    refine (answers_inputs hi).bind_ok fun es es' he he' hes => ?_
    have hs := ih.sockets es.2 (inputs_distinct hd he) (inputs_distinct hd' he') hes
    refine (hs (member members "id") (member members' "id") kind).bind
      fun sockets sockets' hsockets => ?_
    refine (hm.label hd hd' shadow shadow').bind fun l l' hl => ?_
    refine (answers_below hn).bind_ok fun p p' hp hp' hr => ?_
    cases hr with
    | none => exact .ok (.node hl (hsockets false) (hsockets true) .none)
    | @some p p' hr =>
      have ht := ih p.smaller ((inside_of_below hp).distinct hd)
        ((inside_of_below hp').distinct hd') hr p.shadow p'.shadow
      exact ht.map fun u u' hu => .node hl (hsockets false) (hsockets true) (.some hu)
  · -- Neither of the two can be read.
    apply Tree.answers_of_ok_iff
    · constructor
      · rintro ⟨t, ht⟩
        exact absurd (exists_kind_of_readTree ht) hk
      · rintro ⟨t, ht⟩
        rw [hm.kind] at hk
        exact absurd (exists_kind_of_readTree ht) hk
    · intro t t' ht _
      exact absurd (exists_kind_of_readTree ht) hk

theorem readAlike (n : Nat) : ReadAlike n := by
  induction n with
  | zero => exact fun hn => absurd hn (Nat.not_lt_zero _)
  | succ n ih =>
    intro raw raw' hn hd hd' h shadow shadow'
    have hsmaller : ReadAlike (sizeOf raw) := fun hlt => ih (by omega)
    by_cases hobj : ∃ members, raw = .obj members
    · obtain ⟨members, rfl⟩ := hobj
      cases h with
      | same => exact hsmaller.block hd hd' (.same _) shadow shadow'
      | block hm hi hn => exact hsmaller.block hd hd' (.block hm hi hn) shadow shadow'
    · have hnot : ∀ members, raw ≠ .obj members := fun members he => hobj ⟨members, he⟩
      cases h with
      | same =>
        rw [readTree_of_not_obj hnot, readTree_of_not_obj hnot]
        exact .error trivial
      | block => exact absurd rfl (hnot _)

theorem answers_readBlocks {raws raws' : List Json} (h : List.Forall₂ Redrawn raws raws')
    (hd : ∀ raw ∈ raws, raw.Distinct) (hd' : ∀ raw ∈ raws', raw.Distinct) :
    Tree.redrawing.Answers (List.Forall₂ Tree.Redrawn) (readBlocks raws) (readBlocks raws') := by
  induction h with
  | nil => exact .ok .nil
  | cons hr _ ih =>
    obtain ⟨hraw, hd⟩ := List.forall_mem_cons.1 hd
    obtain ⟨hraw', hd'⟩ := List.forall_mem_cons.1 hd'
    refine (readAlike _ (Nat.lt_succ_self _) hraw hraw' hr false false).bind fun t t' ht => ?_
    exact (ih hd hd').bind fun ts ts' hts => .ok (.cons ht hts)

theorem RedrawnDocument.answers_read {document document' : Json}
    (h : RedrawnDocument document document') (hd : document.Distinct) (hd' : document'.Distinct) :
    Tree.redrawing.Answers (fun w w' => List.Forall₂ Tree.Redrawn w.blocks w'.blocks)
      (read document) (read document') := by
  cases h with
  | same =>
    cases read document with
    | error f => exact .error trivial
    | ok w => exact .ok (List.forall₂_same.2 fun t _ => .refl t)
  | @blocks members members' inner inner' raws raws' hb hb' hr hr' h =>
    rw [read, read, hb, hb']
    dsimp only [Option.getD_some]
    rw [hr, hr']
    have hraws := Json.distinct_arr_iff.1 ((hd.of_get? hb).of_get? hr)
    have hraws' := Json.distinct_arr_iff.1 ((hd'.of_get? hb').of_get? hr')
    exact (answers_readBlocks h hraws hraws').map fun _ _ h => h

theorem answers_compile {w w' : Workspace} (h : List.Forall₂ Tree.Redrawn w.blocks w'.blocks)
    (hp : w.IsPlaced) (hp' : w'.IsPlaced) :
    Tree.redrawing.Answers Eq w.compile.result w'.compile.result := by
  have ht : List.Forall₂ Tree.redrawing.refs w.blocks w'.blocks := by
    apply List.forall₂_iff_zip.2
    refine ⟨h.length_eq, fun {t t'} hm => ?_⟩
    obtain ⟨hm₁, hm₂⟩ := List.of_mem_zip hm
    exact ⟨(hp t hm₁).1, (hp' t' hm₂).1, (List.forall₂_iff_zip.1 h).2 hm⟩
  exact ((Tree.diagrams_redrawing ht).compileAll ht).result

/-- What only the editor cares for does not matter: either both documents are read, and then they
compile to the same program or both fail to compile, or none of them is read. -/
theorem redrawn_compiles_alike {document document' : Json} (hd : document.Distinct)
    (hd' : document'.Distinct) (h : RedrawnDocument document document') :
    (∃ w w', read document = .ok w ∧ read document' = .ok w' ∧
      ((∃ program, (compileDocument document).result = .ok program ∧
          (compileDocument document').result = .ok program) ∨
        ∃ f f', (compileDocument document).result = .error f ∧
          (compileDocument document').result = .error f')) ∨
    ∃ f f', read document = .error f ∧ read document' = .error f' := by
  have hr := h.answers_read hd hd'
  rw [compileDocument, compileDocument]
  generalize hx : read document = x at hr ⊢
  generalize hy : read document' = y at hr ⊢
  cases hr with
  | error _ => exact .inr ⟨_, _, rfl, rfl⟩
  | @ok w w' hw =>
    refine .inl ⟨w, w', rfl, rfl, ?_⟩
    have hc := answers_compile hw (isPlaced_of_read hd hx) (isPlaced_of_read hd' hy)
    dsimp only
    generalize w.compile.result = u at hc ⊢
    generalize w'.compile.result = v at hc ⊢
    cases hc with
    | ok he => exact .inl ⟨_, rfl, congrArg _ he.symm⟩
    | error _ => exact .inr ⟨_, _, rfl, rfl⟩

/-- A constant that is a list of two, as the editor first saved it. -/
def drawn : Json :=
  .obj [("blocks", .obj [("blocks", .arr [
    .obj [("type", .str "ai_definition"), ("id", .str "root"),
      ("fields", .obj [("INITIAL_STATE", .str "idle"), ("NOTE", .str "")])],
    .obj [("type", .str "custom_constant_define"), ("fields", .obj [("NAME", .str "k")]),
      ("inputs", .obj [("VALUE", .obj [("block",
        .obj [("type", .str "lists_create_with"),
          ("extraState",
            .obj [("itemCount", .int 2), ("marks", .obj [("a", .int 0), ("b", .int 1)])]),
          ("inputs", .obj [("ADD0", .obj [("block", .obj [("type", .str "logic_null")])]),
            ("ADD1", .obj [("block", .obj [("type", .str "api_get_state")])])])])])])]])])]

/-- The same with other ids and positions, a shadow, and every list of entries turned round. -/
def redrawn : Json :=
  .obj [("blocks", .obj [("blocks", .arr [
    .obj [("type", .str "ai_definition"), ("x", .float .zero), ("y", .float .zero),
      ("fields", .obj [("NOTE", .str ""), ("INITIAL_STATE", .str "idle")])],
    .obj [("type", .str "custom_constant_define"), ("fields", .obj [("NAME", .str "k")]),
      ("id", .str "moved"), ("inputs", .obj [("VALUE", .obj [("shadow",
        .obj [("type", .str "lists_create_with"),
          ("extraState",
            .obj [("marks", .obj [("b", .int 1), ("a", .int 0)]), ("itemCount", .int 2)]),
          ("inputs", .obj [("ADD1", .obj [("block", .obj [("type", .str "api_get_state")])]),
            ("ADD0", .obj [("block", .obj [("type", .str "logic_null")])])])])])])]])])]

theorem get?_swap {α : Type} {k k' : String} (h : k ≠ k') (a a' : α) (key : String) :
    Table.get? [(k, a), (k', a')] key = Table.get? [(k', a'), (k, a)] key := by
  rw [Table.get?_cons, Table.get?_cons, Table.get?_cons, Table.get?_cons]
  by_cases hk : key = k
  · rw [if_pos hk, if_pos hk, if_neg (hk ▸ h)]
  · rw [if_neg hk, if_neg hk]

theorem redrawn_drawn : RedrawnDocument drawn redrawn := by
  have hstate : Json.Reordered
      (.obj [("itemCount", .int 2), ("marks", .obj [("a", .int 0), ("b", .int 1)])])
      (.obj [("marks", .obj [("b", .int 1), ("a", .int 0)]), ("itemCount", .int 2)]) := by
    apply Json.Reordered.obj
    intro key
    rw [get?_swap (by decide)]
    refine Table.rel_get?_cons ?_ (fun key => rel_same .same _) _ _
    apply Json.Reordered.obj
    intro key
    rw [get?_swap (by decide)]
    exact rel_same .same _
  refine .blocks rfl rfl rfl rfl (.cons ?_ (.cons ?_ .nil))
  · exact .block ⟨rfl, .inr ⟨rfl, rfl⟩, .inr ⟨rfl, rfl⟩, .inr ⟨rfl, rfl⟩,
      .entries (get?_swap (by decide) _ _), .same _⟩ (.same _) .none
  · refine .block ⟨rfl, .inr ⟨rfl, rfl⟩, .inl rfl, .inl rfl, .same _, .same _⟩ (.entries ?_) .none
    refine Table.rel_get?_cons (.held (.some ?_)) (fun _ => .none) _
    refine .block ⟨rfl, .inl rfl, .inl rfl, .inl rfl, .same _, hstate⟩
      (.entries fun socket => ?_) .none
    rw [get?_swap (by decide)]
    exact rel_same .same _

theorem redrawn_compiles_as_drawn :
    drawn.Distinct ∧ redrawn.Distinct ∧ RedrawnDocument drawn redrawn ∧
      (compileDocument drawn).result.map (·.definitions) =
        .ok [("k", "const k = [null, api.getState()];")] ∧
      (compileDocument redrawn).result = (compileDocument drawn).result := by
  have hd : drawn.Distinct := by simp [drawn, Table.keys]
  have hd' : redrawn.Distinct := by simp [redrawn, Table.keys, Json.Distinct.float]
  have hc : (compileDocument drawn).result.map (·.definitions) =
      .ok [("k", "const k = [null, api.getState()];")] :=
    eq_ok_of_toOption (by decide +kernel)
  refine ⟨hd, hd', redrawn_drawn, hc, ?_⟩
  rcases redrawn_compiles_alike hd hd' redrawn_drawn with ⟨_, _, _, _, hp | hf⟩ | hf
  · obtain ⟨program, hp, hp'⟩ := hp
    exact hp'.trans hp.symm
  · obtain ⟨f, _, hf, _⟩ := hf
    rw [hf] at hc
    cases hc
  · obtain ⟨f, _, hf, _⟩ := hf
    rw [compileDocument, hf] at hc
    cases hc

end BlockMachine.Workspace
