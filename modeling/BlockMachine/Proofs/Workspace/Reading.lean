import BlockMachine.Proofs.Block.Tree
import BlockMachine.Proofs.Except
import BlockMachine.Proofs.Json.Distinct
import BlockMachine.Workspace.Reader

namespace BlockMachine.Workspace

/-- What is plugged into a place is read as a tree, if there is anything. -/
inductive Holds {source : Json} : Option (Plugged source) → Option Tree → Prop
  | nothing : Holds none none
  | tree {p : Plugged source} {t : Tree} : readTree p.raw p.shadow = .ok t → Holds (some p) (some t)

theorem holds_iff {source : Json} {p : Option (Plugged source)} {child : Option Tree} :
    (match p with
      | none => return none
      | some ⟨raw, shadow, _⟩ => return some (← readTree raw shadow) :
      Except Fault (Option Tree)) = .ok child ↔ Holds p child := by
  cases p with
  | none =>
    refine ⟨fun h => ?_, fun h => ?_⟩
    · cases h
      exact .nothing
    · cases h
      rfl
  | some p =>
    refine ⟨fun h => ?_, fun h => ?_⟩
    · obtain ⟨t, ht, h⟩ := bind_eq_ok.1 h
      cases h
      exact .tree ht
    · cases h with
      | tree ht => exact bind_eq_ok.2 ⟨_, ht, rfl⟩

/-- The steps that give a tree. -/
structure TreeRead (members : Table Json) (shadow : Bool) (l : Label)
    (values statements : Table (Option Tree)) (next : Option Tree) : Prop where
  sockets : ∃ kind es, Table.get? members "type" = some kind ∧
    (∃ h, inputs members = .ok ⟨es, h⟩) ∧
    readSockets (member members "id") kind es = .ok (values, statements)
  label : label members shadow = .ok l
  next : ∃ p, below l members = .ok p ∧ Holds p next

theorem readTree_eq_ok_iff {members : Table Json} {shadow : Bool} {l : Label}
    {values statements : Table (Option Tree)} {next : Option Tree} :
    readTree (.obj members) shadow = .ok (.node l values statements next) ↔
      TreeRead members shadow l values statements next := by
  constructor
  · intro h
    rw [readTree] at h
    split at h
    · cases h
    · rename_i kind hk
      obtain ⟨⟨es, hes⟩, hi, h⟩ := bind_eq_ok.1 h
      obtain ⟨⟨vs, ss⟩, hs, h⟩ := bind_eq_ok.1 h
      obtain ⟨l', hl, h⟩ := bind_eq_ok.1 h
      obtain ⟨p, hp, h⟩ := bind_eq_ok.1 h
      cases p with
      | none =>
        cases h
        exact ⟨⟨kind, es, hk, ⟨hes, hi⟩, hs⟩, hl, none, hp, .nothing⟩
      | some p =>
        obtain ⟨u, hu, h⟩ := bind_eq_ok.1 h
        cases h
        exact ⟨⟨kind, es, hk, ⟨hes, hi⟩, hs⟩, hl, some p, hp, .tree hu⟩
  · intro h
    obtain ⟨⟨kind, es, hk, ⟨hes, hi⟩, hs⟩, hl, p, hp, hn⟩ := h
    rw [readTree, hk]
    refine bind_eq_ok.2 ⟨⟨es, hes⟩, hi, bind_eq_ok.2 ⟨(values, statements), hs, ?_⟩⟩
    refine bind_eq_ok.2 ⟨l, hl, bind_eq_ok.2 ⟨p, hp, ?_⟩⟩
    cases hn with
    | nothing => rfl
    | tree ht => exact bind_eq_ok.2 ⟨_, ht, rfl⟩

/-- A socket joins the sockets behind it, on the side where it belongs. -/
def joined (isStatement : Bool) (entry : String × Option Tree)
    (rest : Table (Option Tree) × Table (Option Tree)) :
    Table (Option Tree) × Table (Option Tree) :=
  if isStatement then (rest.1, entry :: rest.2) else (entry :: rest.1, rest.2)

theorem readSockets_cons_eq_ok_iff {id kind c : Json} {socket : String} {rest : Table Json}
    {sockets : Table (Option Tree) × Table (Option Tree)} :
    readSockets id kind ((socket, c) :: rest) = .ok sockets ↔
      ∃ p child isStatement others, connection id kind c = .ok p ∧ Holds p child ∧
        isStatementSocket kind socket = .ok isStatement ∧
        readSockets id kind rest = .ok others ∧
        sockets = joined isStatement (socket, child) others := by
  rw [readSockets]
  constructor
  · intro h
    obtain ⟨child, hc, h⟩ := bind_eq_ok.1 h
    obtain ⟨p, hp, hc⟩ := bind_eq_ok.1 hc
    obtain ⟨isStatement, hs, h⟩ := bind_eq_ok.1 h
    obtain ⟨⟨values, statements⟩, hr, h⟩ := bind_eq_ok.1 h
    have hj : sockets = joined isStatement (socket, child) (values, statements) := by
      cases isStatement <;> cases h <;> rfl
    exact ⟨p, child, isStatement, _, hp, holds_iff.1 hc, hs, hr, hj⟩
  · rintro ⟨p, child, isStatement, ⟨values, statements⟩, hp, hc, hs, hr, rfl⟩
    refine bind_eq_ok.2 ⟨child, bind_eq_ok.2 ⟨p, hp, holds_iff.2 hc⟩, ?_⟩
    refine bind_eq_ok.2 ⟨isStatement, hs, ?_⟩
    refine bind_eq_ok.2 ⟨(values, statements), hr, ?_⟩
    cases isStatement <;> rfl

theorem readSockets_cons_eq_error_iff {id kind c : Json} {socket : String} {rest : Table Json}
    {f : Fault} :
    readSockets id kind ((socket, c) :: rest) = .error f ↔
      connection id kind c = .error f ∨
      (∃ p, connection id kind c = .ok (some p) ∧ readTree p.raw p.shadow = .error f) ∨
      ∃ p child, connection id kind c = .ok p ∧ Holds p child ∧
        (isStatementSocket kind socket = .error f ∨
          ∃ isStatement, isStatementSocket kind socket = .ok isStatement ∧
            readSockets id kind rest = .error f) := by
  rw [readSockets]
  constructor
  · intro h
    rcases bind_eq_error.1 h with h | ⟨child, hc, h⟩
    · rcases bind_eq_error.1 h with h | ⟨p, hp, h⟩
      · exact .inl h
      · cases p with
        | none => cases h
        | some p =>
          rcases bind_eq_error.1 h with h | ⟨_, _, h⟩
          · exact .inr (.inl ⟨p, hp, h⟩)
          · cases h
    · obtain ⟨p, hp, hc⟩ := bind_eq_ok.1 hc
      refine .inr (.inr ⟨p, child, hp, holds_iff.1 hc, ?_⟩)
      rcases bind_eq_error.1 h with h | ⟨isStatement, hs, h⟩
      · exact .inl h
      · rcases bind_eq_error.1 h with h | ⟨_, _, h⟩
        · exact .inr ⟨isStatement, hs, h⟩
        · cases isStatement <;> cases h
  · rintro (h | ⟨p, hp, h⟩ | ⟨p, child, hp, hc, h⟩)
    · exact bind_eq_error.2 (.inl (bind_eq_error.2 (.inl h)))
    · exact bind_eq_error.2 (.inl (bind_eq_error.2 (.inr ⟨some p, hp, bind_eq_error.2 (.inl h)⟩)))
    · refine bind_eq_error.2 (.inr ⟨child, bind_eq_ok.2 ⟨p, hp, holds_iff.2 hc⟩, ?_⟩)
      rcases h with h | ⟨isStatement, hs, h⟩
      · exact bind_eq_error.2 (.inl h)
      · exact bind_eq_error.2 (.inr ⟨isStatement, hs, bind_eq_error.2 (.inl h)⟩)

/-- What is shown of every failure, of one at a block and of one among its sockets, by showing it
for each step that can fail. Sockets before the one that fails have been left behind. -/
structure CoversFailures (tree : Json → Bool → Fault → Prop)
    (sockets : Json → Json → Table Json → Fault → Prop) : Prop where
  untyped (raw : Json) (shadow : Bool) : tree raw shadow (.format (.untypedBlock raw))
  ofInputs {members : Table Json} {shadow : Bool} {f : Fault} :
    inputs members = .error f → tree (.obj members) shadow f
  ofSockets {members es : Table Json} {hs : sizeOf es < sizeOf (Json.obj members)} {shadow : Bool}
    {kind : Json} {f : Fault} :
    Table.get? members "type" = some kind → inputs members = .ok ⟨es, hs⟩ →
    sockets (member members "id") kind es f → tree (.obj members) shadow f
  ofLabel {members : Table Json} {shadow : Bool} {f : Fault} :
    label members shadow = .error f → tree (.obj members) shadow f
  ofBelow {members : Table Json} {shadow : Bool} {l : Label} {f : Fault} :
    label members shadow = .ok l → below l members = .error f → tree (.obj members) shadow f
  next {members es : Table Json} {hs : sizeOf es < sizeOf (Json.obj members)} {shadow : Bool}
    {kind : Json} {read : Table (Option Tree) × Table (Option Tree)} {l : Label}
    {p : Plugged (.obj members)} {f : Fault} :
    Table.get? members "type" = some kind → inputs members = .ok ⟨es, hs⟩ →
    readSockets (member members "id") kind es = .ok read → label members shadow = .ok l →
    below l members = .ok (some p) → tree p.raw p.shadow f → tree (.obj members) shadow f
  ofConnection {id kind c : Json} {socket : String} {rest : Table Json} {f : Fault} :
    connection id kind c = .error f → sockets id kind ((socket, c) :: rest) f
  plugged {id kind c : Json} {socket : String} {rest : Table Json} {p : Plugged c} {f : Fault} :
    connection id kind c = .ok (some p) → tree p.raw p.shadow f →
    sockets id kind ((socket, c) :: rest) f
  ofKind {id kind c : Json} {socket : String} {rest : Table Json} {p : Option (Plugged c)}
    {child : Option Tree} {f : Fault} :
    connection id kind c = .ok p → Holds p child → isStatementSocket kind socket = .error f →
    sockets id kind ((socket, c) :: rest) f
  later {id kind c : Json} {socket : String} {rest : Table Json} {p : Option (Plugged c)}
    {child : Option Tree} {isStatement : Bool} {f : Fault} :
    connection id kind c = .ok p → Holds p child →
    isStatementSocket kind socket = .ok isStatement → sockets id kind rest f →
    sockets id kind ((socket, c) :: rest) f

namespace CoversFailures

variable {tree : Json → Bool → Fault → Prop} {sockets : Json → Json → Table Json → Fault → Prop}
  {f : Fault}

theorem of_sockets (hc : CoversFailures tree sockets) {id kind : Json} {entries : Table Json}
    (ih : ∀ raw shadow, sizeOf raw < sizeOf entries → readTree raw shadow = .error f →
      tree raw shadow f)
    (h : readSockets id kind entries = .error f) : sockets id kind entries f := by
  induction entries with
  | nil =>
    rw [readSockets] at h
    cases h
  | cons e rest ihe =>
    obtain ⟨socket, c⟩ := e
    rcases readSockets_cons_eq_error_iff.1 h with h | ⟨p, hp, h⟩ | ⟨p, child, hp, hh, h⟩
    · exact hc.ofConnection h
    · have hlt : sizeOf p.raw < sizeOf ((socket, c) :: rest) := by
        have := p.smaller
        simp only [List.cons.sizeOf_spec, Prod.mk.sizeOf_spec]
        omega
      exact hc.plugged hp (ih p.raw p.shadow hlt h)
    · rcases h with h | ⟨isStatement, hs, h⟩
      · exact hc.ofKind hp hh h
      · have hlt : sizeOf rest < sizeOf ((socket, c) :: rest) := by
          simp only [List.cons.sizeOf_spec]
          omega
        have hrest := ihe (fun raw shadow hr => ih raw shadow (Nat.lt_trans hr hlt)) h
        exact hc.later hp hh hs hrest

theorem of_tree (hc : CoversFailures tree sockets) {raw : Json} {shadow : Bool}
    (h : readTree raw shadow = .error f) : tree raw shadow f := by
  -- The sockets and the block below are smaller documents.
  induction hn : sizeOf raw using Nat.strongRecOn generalizing raw shadow f with
  | ind n ih =>
    subst hn
    cases raw with
    | obj members =>
      rw [readTree] at h
      split at h
      · cases h
        exact hc.untyped _ _
      · rename_i kind hk
        rcases bind_eq_error.1 h with h | ⟨⟨es, hes⟩, hi, h⟩
        · exact hc.ofInputs h
        rcases bind_eq_error.1 h with h | ⟨read, hs, h⟩
        · have hsockets := hc.of_sockets
            (fun raw shadow hlt he => ih _ (Nat.lt_trans hlt hes) he rfl) h
          exact hc.ofSockets hk hi hsockets
        rcases bind_eq_error.1 h with h | ⟨l, hl, h⟩
        · exact hc.ofLabel h
        rcases bind_eq_error.1 h with h | ⟨p, hp, h⟩
        · exact hc.ofBelow hl h
        cases p with
        | none => cases h
        | some p =>
          rcases bind_eq_error.1 h with h | ⟨_, _, h⟩
          · exact hc.next hk hi hs hl hp (ih _ p.smaller h rfl)
          · cases h
    | _ =>
      rw [readTree] at h
      · cases h
        exact hc.untyped _ _
      · intro members he
        cases he

end CoversFailures

theorem inside_of_present? {source : Json} {key : String}
    {j : { j : Json // sizeOf j < sizeOf source }} (h : present? source key = some j) :
    j.1.Inside source := by
  cases source with
  | obj members =>
    rw [present?] at h
    split at h
    · cases h
    · cases h
    · rename_i hg
      cases h
      exact Json.inside_of_get? hg
  | _ => cases h

theorem inside_of_plugged? {c : Json} {p : Plugged c} (h : plugged? c = some p) :
    p.raw.Inside c := by
  rw [plugged?] at h
  split at h
  · rename_i hb
    cases h
    exact inside_of_present? hb
  · obtain ⟨j, hj, he⟩ := Option.map_eq_some_iff.1 h
    cases he
    exact inside_of_present? hj

theorem inside_of_connection {id kind c : Json} {p : Plugged c}
    (h : connection id kind c = .ok (some p)) : p.raw.Inside c := by
  cases c with
  | obj members => exact inside_of_plugged? (Except.ok.inj h)
  | _ => cases h

theorem inputs_cases {members es : Table Json} {hs : sizeOf es < sizeOf (Json.obj members)}
    (h : inputs members = .ok ⟨es, hs⟩) :
    es = [] ∨ Table.get? members "inputs" = some (.obj es) := by
  rw [inputs] at h
  split at h
  · rename_i hg
    cases h
    exact .inr hg
  · cases h
    exact .inl rfl
  · split at h
    · cases h
    · cases h
      exact .inl rfl

theorem inputs_distinct {members es : Table Json} {hs : sizeOf es < sizeOf (Json.obj members)}
    (hd : (Json.obj members).Distinct) (h : inputs members = .ok ⟨es, hs⟩) :
    (Json.obj es).Distinct := by
  rcases inputs_cases h with rfl | hg
  · exact Json.distinct_empty
  · exact hd.of_get? hg

theorem inside_of_below {l : Label} {members : Table Json} {p : Plugged (.obj members)}
    (h : below l members = .ok (some p)) : p.raw.Inside (.obj members) := by
  rw [below] at h
  split at h
  · cases h
  · rename_i c hg
    split at h
    · obtain ⟨q, hq, h⟩ := map_eq_ok.1 h
      obtain ⟨r, rfl, he⟩ := Option.map_eq_some_iff.1 h
      have hr := inside_of_connection hq
      cases he
      exact hr.trans (Json.inside_of_get? hg)
    · cases h

theorem inside_of_sections {members inner : Table Json} {raws : List Json} {raw : Json}
    (hinner : (Table.get? members "blocks").getD (.obj []) = .obj inner)
    (hraws : (Table.get? inner "blocks").getD (.arr []) = .arr raws) (hm : raw ∈ raws) :
    raw.Inside (.obj members) := by
  rcases Json.eq_or_inside_of_getD hraws with he | hlist
  · cases he
    cases hm
  rcases Json.eq_or_inside_of_getD hinner with he | hobj
  · cases he
    cases hraws
    cases hm
  · have hraw : raw.Inside _ := .item hm .refl
    exact hraw.trans (hlist.trans hobj)

/-- A tree was read from a part of the document. -/
def Source (document : Json) (t : Tree) : Prop :=
  ∃ raw shadow, raw.Inside document ∧ readTree raw shadow = .ok t

theorem Source.of_inside {j k : Json} {t : Tree} (h : Source j t) (hj : j.Inside k) :
    Source k t := by
  obtain ⟨raw, shadow, hr, ht⟩ := h
  exact ⟨raw, shadow, hr.trans hj, ht⟩

theorem Holds.source {source document : Json} {p : Option (Plugged source)} {t : Tree}
    (hi : ∀ q, p = some q → q.raw.Inside document) (h : Holds p (some t)) : Source document t := by
  cases h with
  | tree ht => exact ⟨_, _, hi _ rfl, ht⟩

/-- Sockets read from entries: each on its side, none twice, with trees that were read. -/
structure SocketsRead (kind : String) (entries : Table Json)
    (sockets : Table (Option Tree) × Table (Option Tree)) : Prop where
  values : ∀ socket ∈ Table.keys sockets.1, Catalog.isStatementSocket kind socket = false
  statements : ∀ socket ∈ Table.keys sockets.2, Catalog.isStatementSocket kind socket = true
  values_sublist : (Table.keys sockets.1).Sublist (Table.keys entries)
  statements_sublist : (Table.keys sockets.2).Sublist (Table.keys entries)
  value_trees : ∀ socket t, (socket, some t) ∈ sockets.1 → ∃ e ∈ entries, Source e.2 t
  statement_trees : ∀ socket t, (socket, some t) ∈ sockets.2 → ∃ e ∈ entries, Source e.2 t

theorem SocketsRead.nil (kind : String) : SocketsRead kind [] ([], []) :=
  ⟨nofun, nofun, .slnil, .slnil, nofun, nofun⟩

theorem SocketsRead.cons {kind socket : String} {c : Json} {child : Option Tree}
    {entries : Table Json} {others : Table (Option Tree) × Table (Option Tree)}
    (h : SocketsRead kind entries others) (hc : ∀ t, child = some t → Source c t) :
    SocketsRead kind ((socket, c) :: entries)
      (joined (Catalog.isStatementSocket kind socket) (socket, child) others) := by
  have hold {t : Tree} (h : ∃ e ∈ entries, Source e.2 t) :
      ∃ e ∈ (socket, c) :: entries, Source e.2 t := by
    obtain ⟨e, he, ht⟩ := h
    exact ⟨e, List.mem_cons_of_mem _ he, ht⟩
  have hnew {side : Table (Option Tree)}
      (hs : ∀ s t, (s, some t) ∈ side → ∃ e ∈ entries, Source e.2 t) (s : String) (t : Tree)
      (hm : (s, some t) ∈ (socket, child) :: side) :
      ∃ e ∈ (socket, c) :: entries, Source e.2 t := by
    rcases List.mem_cons.1 hm with he | hm
    · cases he
      exact ⟨_, List.mem_cons_self, hc t rfl⟩
    · exact hold (hs s t hm)
  cases hs : Catalog.isStatementSocket kind socket with
  | true =>
    exact ⟨h.values, List.forall_mem_cons.2 ⟨hs, h.statements⟩, h.values_sublist.cons socket,
      h.statements_sublist.cons_cons socket, fun s t hm => hold (h.value_trees s t hm),
      hnew h.statement_trees⟩
  | false =>
    exact ⟨List.forall_mem_cons.2 ⟨hs, h.values⟩, h.statements, h.values_sublist.cons_cons socket,
      h.statements_sublist.cons socket, hnew h.value_trees,
      fun s t hm => hold (h.statement_trees s t hm)⟩

theorem socketsRead {id : Json} {kind : String} {entries : Table Json}
    {sockets : Table (Option Tree) × Table (Option Tree)}
    (h : readSockets id (.str kind) entries = .ok sockets) :
    SocketsRead kind entries sockets := by
  induction entries generalizing sockets with
  | nil =>
    rw [readSockets] at h
    cases h
    exact .nil kind
  | cons e entries ih =>
    obtain ⟨socket, c⟩ := e
    obtain ⟨p, child, isStatement, others, hp, hh, hs, hr, rfl⟩ := readSockets_cons_eq_ok_iff.1 h
    cases hs
    apply (ih hr).cons
    rintro t rfl
    apply hh.source
    rintro q rfl
    exact inside_of_connection hp

theorem kind?_eq_some {j : Json} {kind : String} (h : kind? j = some kind) : j = .str kind := by
  cases j <;> cases h
  rfl

theorem id?_eq_some {j : Json} {id : Option String} (h : id? j = some id) : j = .ofText? id := by
  cases j <;> cases h <;> rfl

theorem label_eq_ok {members : Table Json} {shadow : Bool} {l : Label}
    (h : label members shadow = .ok l) :
    member members "type" = .str l.kind ∧ member members "id" = .ofText? l.id ∧
      l.shadow = shadow := by
  rw [label] at h
  split at h
  · rename_i hl
    cases h
    obtain ⟨kind, hk, hl⟩ := Option.bind_eq_some_iff.1 hl
    obtain ⟨id, hi, hl⟩ := Option.bind_eq_some_iff.1 hl
    obtain ⟨_, _, hl⟩ := Option.bind_eq_some_iff.1 hl
    obtain ⟨_, _, hl⟩ := Option.bind_eq_some_iff.1 hl
    obtain ⟨_, _, hl⟩ := Option.bind_eq_some_iff.1 hl
    obtain ⟨_, _, hl⟩ := Option.bind_eq_some_iff.1 hl
    cases hl
    exact ⟨kind?_eq_some hk, id?_eq_some hi, rfl⟩
  · cases h

theorem exists_members_of_readTree {raw : Json} {shadow : Bool} {t : Tree}
    (h : readTree raw shadow = .ok t) : ∃ members, raw = .obj members := by
  cases raw with
  | obj members => exact ⟨members, rfl⟩
  | _ =>
    rw [readTree] at h
    · cases h
    · intro members he
      cases he

theorem TreeRead.socketsRead {members : Table Json} {shadow : Bool} {l : Label}
    {values statements : Table (Option Tree)} {next : Option Tree}
    (h : TreeRead members shadow l values statements next) :
    ∃ es, (es = [] ∨ Table.get? members "inputs" = some (.obj es)) ∧
      SocketsRead l.kind es (values, statements) := by
  obtain ⟨⟨kind, es, hk, ⟨hes, hi⟩, hs⟩, hl, -⟩ := h
  have hkind : kind = .str l.kind := by
    have := (label_eq_ok hl).1
    rw [member, hk] at this
    exact this
  subst hkind
  exact ⟨es, inputs_cases hi, Workspace.socketsRead hs⟩

theorem all_of_readTree {P : Json → Prop} {Q : Tree → Prop}
    (hP : ∀ {j k : Json}, j.Inside k → P k → P j)
    (hQ : ∀ {members shadow l values statements next}, P (.obj members) →
      TreeRead members shadow l values statements next → Q (.node l values statements next))
    {raw : Json} {shadow : Bool} {t : Tree} (hraw : P raw) (h : readTree raw shadow = .ok t) :
    t.All Q := by
  induction t using Tree.induct generalizing raw shadow with
  | node l values statements next ihv ihs ihn =>
    obtain ⟨members, rfl⟩ := exists_members_of_readTree h
    have hr := readTree_eq_ok_iff.1 h
    obtain ⟨es, hes, hsockets⟩ := hr.socketsRead
    obtain ⟨p, hp, hn⟩ := hr.next
    have hentry {t : Tree} (ht : ∃ e ∈ es, Source e.2 t) : Source (.obj members) t := by
      obtain ⟨e, he, ht⟩ := ht
      rcases hes with rfl | hg
      · cases he
      · exact ht.of_inside ((Json.Inside.member he .refl).trans (Json.inside_of_get? hg))
    have hnext : ∀ t, next = some t → Source (.obj members) t := by
      rintro t rfl
      apply hn.source
      rintro q rfl
      exact inside_of_below hp
    refine .node (hQ hraw hr) (fun s t hm => ?_) (fun s t hm => ?_) (fun t ht => ?_)
    · obtain ⟨raw, shadow, hi, ht⟩ := hentry (hsockets.value_trees s t hm)
      exact ihv s t hm (hP hi hraw) ht
    · obtain ⟨raw, shadow, hi, ht⟩ := hentry (hsockets.statement_trees s t hm)
      exact ihs s t hm (hP hi hraw) ht
    · obtain ⟨raw, shadow, hi, hu⟩ := hnext t ht
      exact ihn t ht (hP hi hraw) hu

theorem all_placed {raw : Json} {shadow : Bool} {t : Tree} (hd : raw.Distinct)
    (h : readTree raw shadow = .ok t) : t.All Tree.Placed := by
  refine all_of_readTree (P := Json.Distinct) Json.Inside.distinct ?_ hd h
  intro members shadow l values statements next hd hr
  obtain ⟨es, hes, hr⟩ := hr.socketsRead
  have hn : (Table.keys es).Nodup := by
    rcases hes with rfl | hg
    · exact List.nodup_nil
    · exact (Json.distinct_obj_iff.1 (hd.of_get? hg)).1
  exact ⟨hr.values, hr.statements, hn.sublist hr.values_sublist, hn.sublist hr.statements_sublist⟩

theorem readTree_shadow {raw : Json} {shadow : Bool} {t : Tree} (h : readTree raw shadow = .ok t) :
    t.label.shadow = shadow := by
  obtain ⟨members, rfl⟩ := exists_members_of_readTree h
  cases t with
  | node l values statements next => exact (label_eq_ok (readTree_eq_ok_iff.1 h).label).2.2

theorem exists_raw_of_readBlocks {raws : List Json} {ts : List Tree}
    (h : readBlocks raws = .ok ts) :
    ∀ t ∈ ts, ∃ raw ∈ raws, readTree raw false = .ok t := by
  induction raws generalizing ts with
  | nil =>
    cases h
    exact List.forall_mem_nil _
  | cons raw raws ih =>
    obtain ⟨t, ht, h⟩ := bind_eq_ok.1 h
    obtain ⟨us, hu, h⟩ := bind_eq_ok.1 h
    cases h
    refine List.forall_mem_cons.2 ⟨⟨raw, List.mem_cons_self, ht⟩, fun u hm => ?_⟩
    obtain ⟨raw', hr, hu⟩ := ih hu u hm
    exact ⟨raw', List.mem_cons_of_mem _ hr, hu⟩

theorem exists_raw_of_read {document : Json} {w : Workspace} (h : read document = .ok w) :
    ∀ t ∈ w.blocks, ∃ raw, raw.Inside document ∧ readTree raw false = .ok t := by
  rw [read.eq_def] at h
  split at h
  · split at h
    · rename_i hinner
      split at h
      · rename_i hraws
        obtain ⟨ts, hts, rfl⟩ := map_eq_ok.1 h
        intro t ht
        obtain ⟨raw, hm, hr⟩ := exists_raw_of_readBlocks hts t ht
        exact ⟨raw, inside_of_sections hinner hraws hm, hr⟩
      · cases h
    · cases h
  · cases h

end BlockMachine.Workspace
