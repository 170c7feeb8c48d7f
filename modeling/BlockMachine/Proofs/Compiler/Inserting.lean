import BlockMachine.Proofs.Compiler.States
import BlockMachine.Proofs.Compiler.Relocation

namespace BlockMachine

namespace Tree

variable {x : Tree} {target : String}

/-- A block that says where it leads to, but not when. -/
structure Conditionless (x : Tree) (target : String) : Prop where
  target : x.block.fieldText "TARGET" = .ok target
  condition : x.block.value? "CONDITION" = none

/-- The transition of a state that such a block comes to. -/
def localLeap (target : String) : Transition := { target, condition := ⟨"false", .atomic⟩ }

/-- The global transition that such a block comes to. -/
def globalLeap (x : Tree) (target : String) (tier : Tier) : Transition where
  target := target
  condition := ⟨"() => false", .atomic⟩
  description := x.block.fieldTextD "DESCRIPTION" ""
  tier := tier

variable (ts : List Tree) (k : Nat) (next : Option Tree)

theorem Conditionless.globalBlock (h : x.Conditionless target) {tier : Tier}
    (ht : Generator.globalTier? x.block.kind = some tier) :
    (Generator.ofDepth (diagram ts) k).globalBlock (x.withNext next) =
      pure (x.globalLeap target tier) := by
  have hn : (Generator.ofDepth (diagram ts) k).globalBlock (x.withNext next) =
      (Generator.ofDepth (diagram ts) k).globalBlock x := by
    cases x
    cases k <;> rfl
  rw [hn, Generator.globalBlock, Generator.diagram_ofDepth, block_diagram, ht]
  dsimp only
  rw [Generator.globalTransition, h.target, Generator.condition, h.condition]
  rfl

theorem Conditionless.localTransition (h : x.Conditionless target)
    (hk : x.block.kind = Catalog.localTransitionKind) :
    Compile.visiting (diagram ts) (x.withNext next)
        ((Generator.ofDepth (diagram ts) k).localTransition (x.withNext next).block) =
      pure (localLeap target) := by
  have hn : (Generator.ofDepth (diagram ts) k).localTransition (x.withNext next).block =
      pure (localLeap target) := by
    have hx : (Generator.ofDepth (diagram ts) k).localTransition (x.withNext next).block =
        (Generator.ofDepth (diagram ts) k).localTransition x.block := by
      cases x
      rfl
    rw [hx, Generator.localTransition, hk, h.target, Generator.condition, h.condition]
    rfl
  funext c
  rw [hn, Compile.visiting, seen_diagram]
  rfl

end Tree

namespace Compile

variable {α : Type} {f f' : Tree → Compile Tree α} {rs rs' before : List Tree} {i : Nat}
  {c c' : Context Tree} {as : List α}

theorem mapM_congr (h : List.Forall₂ (fun t t' => f' t' = f t) rs rs') :
    rs'.mapM f' = rs.mapM f := by
  induction h with
  | nil => rfl
  | cons ht _ ih => rw [List.mapM_cons, List.mapM_cons, ht, ih]

theorem length_of_mapM (h : rs.mapM f c = .ok as c') : as.length = rs.length := by
  obtain ⟨qs, -, -, rfl, rfl⟩ := mapM_eq_ok h
  rw [List.length_map, List.length_map]

theorem mapM_take_drop (i : Nat) (h : rs.mapM f c = .ok as c') :
    ∃ c₁, (rs.take i).mapM f c = .ok (as.take i) c₁ ∧
      (rs.drop i).mapM f c₁ = .ok (as.drop i) c' := by
  rw [← List.take_append_drop i rs, List.mapM_append] at h
  obtain ⟨bs, c₁, hb, h⟩ := bind_eq_ok.1 h
  obtain ⟨cs, c₂, hc, h⟩ := bind_eq_ok.1 h
  obtain ⟨rfl, rfl⟩ := pure_eq_ok.1 h
  have hl : bs.length = min i rs.length := by rw [length_of_mapM hb, List.length_take]
  have hn : cs.length = rs.length - i := by rw [length_of_mapM hc, List.length_drop]
  rcases Nat.le_total i rs.length with hi | hi
  · have hi : bs.length = i := by omega
    refine ⟨c₁, ?_, ?_⟩
    · rw [List.take_left' hi]
      exact hb
    · rw [List.drop_left' hi]
      exact hc
  · obtain rfl : cs = [] := List.length_eq_zero_iff.1 (by omega)
    have hs : bs.length ≤ i := by omega
    rw [List.append_nil, List.take_of_length_le hs, List.drop_of_length_le hs]
    exact ⟨c₁, hb, hc⟩

theorem mapM_insert {x : Tree} {a : α}
    (hb : List.Forall₂ (fun t t' => f' t' = f t) (rs.take i) before) (hx : f' x = pure a)
    (ha : ∀ t ∈ rs.drop i, f' t = f t) (h : rs.mapM f c = .ok as c') :
    (before ++ x :: rs.drop i).mapM f' c = .ok (as.take i ++ a :: as.drop i) c' := by
  obtain ⟨c₁, htake, hdrop⟩ := mapM_take_drop i h
  rw [List.mapM_append, List.mapM_cons, mapM_congr hb, mapM_congr (List.forall₂_same.2 ha), hx,
    pure_bind]
  refine bind_eq_ok.2 ⟨_, c₁, htake, bind_eq_ok.2 ⟨_, c', ?_, rfl⟩⟩
  exact bind_eq_ok.2 ⟨_, c', hdrop, rfl⟩

end Compile

theorem forall₂_and {α β : Type} {R : α → β → Prop} {P : α → Prop} {Q : β → Prop} {as : List α}
    {bs : List β} (h : List.Forall₂ R as bs) (hp : ∀ a ∈ as, P a) (hq : ∀ b ∈ bs, Q b) :
    List.Forall₂ (fun a b => P a ∧ Q b ∧ R a b) as bs :=
  (List.forall₂_and_left _ _).2 ⟨hp, ((List.forall₂_and_left _ _).2 ⟨hq, h.flip⟩).flip⟩

/-- The list with one more element below its first ones. -/
def insertedAt {α : Type} (a : α) (i : Nat) (as : List α) : List α := as.take i ++ a :: as.drop i

section

variable {ts us : List Tree} {k k' i : Nat} {x : Tree} {target : String} {top : Option Tree}
  {c c' : Context Tree}

/-- The blocks of a stack and of the same stack with a block put in, each with room in its own
workspace. -/
theorem Room.insertAt (h : ∀ t, top = some t → Room ts k t)
    (h' : ∀ t, x.insertAt i top = some t → Room us k' t) {f f' : Tree → Compile Tree Transition}
    (hf : ∀ {t next}, Room ts k t → Room us k' (t.withNext next) → f' (t.withNext next) = f t)
    {a : Transition} (hx : ∀ next, f' (x.withNext next) = pure a) {as : List Transition}
    (hr : (Tree.stackedOption top).mapM f c = .ok as c') :
    (Tree.stackedOption (x.insertAt i top)).mapM f' c = .ok (insertedAt a i as) c' := by
  obtain ⟨before, next, hs, hb⟩ := Tree.stackedOption_insertAt x i top
  have ho := Room.stackedOption h
  have hn := Room.stackedOption h'
  rw [hs] at hn ⊢
  apply Compile.mapM_insert _ (hx next) _ hr
  · apply (forall₂_and hb _ _).imp
    · rintro t _ ⟨ht, ht', n, rfl⟩
      exact hf ht ht'
    · intro t ht
      exact ho t (List.mem_of_mem_take ht)
    · intro t ht
      exact hn t (List.mem_append_left _ ht)
  · intro t ht
    have h₁ := ho t (List.mem_of_mem_drop ht)
    have h₂ := hn t (List.mem_append_right _ (List.mem_cons_of_mem _ ht))
    rw [← t.withNext_next] at h₂ ⊢
    rw [hf h₁ h₂, t.withNext_next]

theorem collect_insertAt (hx : x.Conditionless target)
    (hk : x.block.kind = Catalog.localTransitionKind) (h : ∀ t, top = some t → Room ts k t)
    (h' : ∀ t, x.insertAt i top = some t → Room us k' t) {as : List Transition}
    (hr : (Generator.ofDepth (Tree.diagram ts) k).collect top
      (Generator.ofDepth (Tree.diagram ts) k).localTransition c = .ok as c') :
    (Generator.ofDepth (Tree.diagram us) k').collect (x.insertAt i top)
      (Generator.ofDepth (Tree.diagram us) k').localTransition c =
        .ok (insertedAt (Tree.localLeap target) i as) c' := by
  rw [Generator.collect, Watch.collect, Generator.diagram_ofDepth,
    Tree.stack_eq fun t ht => (h t ht).bound] at hr
  rw [Generator.collect, Watch.collect, Generator.diagram_ofDepth,
    Tree.stack_eq fun t ht => (h' t ht).bound]
  refine Room.insertAt h h' ?_ (fun next => hx.localTransition us k' next hk) hr
  intro t next ht ht'
  exact Room.transition_moved ht ht'

end

namespace Block

variable {ρ : Type} {b b' : Block ρ}

theorem site_congr (h : b'.toLabel = b.toLabel) : b'.site = b.site := congrArg Label.site h

theorem fieldText_congr (h : b'.toLabel = b.toLabel) (name : String) :
    b'.fieldText name = b.fieldText name := by
  simp only [fieldText, field, field?, missing, h]

end Block

theorem Generator.state_of_transitions {ρ : Type} {g g' : Generator ρ} {b b' : Block ρ}
    {c c' : Context ρ} {s : State} {F : List Transition → List Transition}
    (hl : b'.toLabel = b.toLabel)
    (hs : ∀ name ∈ ["ON_ENTER", "ON_EXECUTE", "ON_EXIT"],
      g'.sequence (b'.head? name) = g.sequence (b.head? name))
    (hi : g'.diagram.interruptibleBy b' = g.diagram.interruptibleBy b)
    (ht : ∀ {c c' as}, g.collect (b.head? "TRANSITIONS") g.localTransition c = .ok as c' →
      g'.collect (b'.head? "TRANSITIONS") g'.localTransition c = .ok (F as) c')
    (h : g.state b c = .ok s c') :
    g'.state b' c = .ok { s with transitions := F s.transitions } c' := by
  have hk : b'.kind = b.kind := congrArg Label.kind hl
  rw [state, Watch.state] at h ⊢
  rw [hk, Block.fieldText_congr hl, Block.site_congr hl, hi, hs "ON_ENTER" (by decide),
    hs "ON_EXECUTE" (by decide), hs "ON_EXIT" (by decide)]
  split at h
  · cases h
  · rename_i hkind
    rw [if_neg hkind]
    obtain ⟨name, c₁, h₁, h⟩ := Compile.bind_eq_ok.1 h
    refine Compile.bind_eq_ok.2 ⟨name, c₁, h₁, ?_⟩
    obtain ⟨u, c₂, h₂, h⟩ := Compile.bind_eq_ok.1 h
    refine Compile.bind_eq_ok.2 ⟨u, c₂, h₂, ?_⟩
    obtain ⟨onEnter, c₃, h₃, h⟩ := Compile.bind_eq_ok.1 h
    refine Compile.bind_eq_ok.2 ⟨onEnter, c₃, h₃, ?_⟩
    obtain ⟨onExecute, c₄, h₄, h⟩ := Compile.bind_eq_ok.1 h
    refine Compile.bind_eq_ok.2 ⟨onExecute, c₄, h₄, ?_⟩
    obtain ⟨onExit, c₅, h₅, h⟩ := Compile.bind_eq_ok.1 h
    refine Compile.bind_eq_ok.2 ⟨onExit, c₅, h₅, ?_⟩
    obtain ⟨transitions, c₆, h₆, h⟩ := Compile.bind_eq_ok.1 h
    refine Compile.bind_eq_ok.2 ⟨F transitions, c₆, ht h₆, ?_⟩
    obtain ⟨names, c₇, h₇, h⟩ := Compile.bind_eq_ok.1 h
    refine Compile.bind_eq_ok.2 ⟨names, c₇, h₇, ?_⟩
    obtain ⟨rfl, rfl⟩ := Compile.pure_eq_ok.1 h
    rfl

/-- The same state, or one that has got a transition. -/
def State.Gains (a : Transition) (s s' : State) : Prop :=
  s' = s ∨ ∃ i, s' = { s with transitions := insertedAt a i s.transitions }

section

variable {ts us : List Tree} {k k' i : Nat} {x t : Tree} {target : String} {next : Option Tree}
  {c c' : Context Tree}

theorem Room.head? (h : Room ts k t) {socket : String} {u : Tree}
    (hu : t.block.head? socket = some u) : Room ts k u := by
  have hs := Tree.size_lt_of_mem_statements (Table.mem_of_join_get? hu)
  exact ⟨Nat.le_trans (Nat.le_of_lt hs) h.depth, Nat.le_trans (Nat.le_of_lt hs) h.bound⟩

theorem state_insertAt (hx : x.Conditionless target)
    (hk : x.block.kind = Catalog.localTransitionKind) (h : Room ts k t)
    (h' : Room us k' ((t.changeStack "TRANSITIONS" (x.insertAt i)).withNext next)) {s : State}
    (hr : (Generator.ofDepth (Tree.diagram ts) k).state t.block c = .ok s c') :
    (Generator.ofDepth (Tree.diagram us) k').state
        ((t.changeStack "TRANSITIONS" (x.insertAt i)).withNext next).block c =
      .ok { s with transitions := insertedAt (Tree.localLeap target) i s.transitions } c' := by
  have hhead {name : String} (hn : name ≠ "TRANSITIONS") :
      ((t.changeStack "TRANSITIONS" (x.insertAt i)).withNext next).block.head? name =
        t.block.head? name := by
    rw [Tree.head?_withNext, Tree.head?_changeStack_of_ne _ _ hn]
  have htop : ((t.changeStack "TRANSITIONS" (x.insertAt i)).withNext next).block.head?
      "TRANSITIONS" = x.insertAt i (t.block.head? "TRANSITIONS") := by
    rw [Tree.head?_withNext, Tree.head?_changeStack_self]
  have hroom {name : String} (hn : name ≠ "TRANSITIONS") :
      ∀ u, t.block.head? name = some u → Room ts k u ∧ Room us k' u := by
    intro u hu
    exact ⟨h.head? hu, h'.head? ((hhead hn).trans hu)⟩
  refine Generator.state_of_transitions (F := insertedAt _ i) ?_ ?_ ?_ ?_ hr
  · cases t
    rfl
  · intro name hn
    have hn : name ≠ "TRANSITIONS" := by
      rintro rfl
      revert hn
      decide
    rw [hhead hn, Room.sequence_eq (hroom hn)]
  · rw [Generator.diagram_ofDepth, Generator.diagram_ofDepth]
    exact Room.interruptibleBy_eq (hhead (by decide)) (hroom (by decide))
  · intro c c' as ha
    rw [htop]
    refine collect_insertAt hx hk (fun u hu => h.head? hu) ?_ ha
    intro u hu
    exact h'.head? (htop.trans hu)

end

/-- The same states by name, some of which may have got a transition. -/
def Gained (a : Transition) (states states' : Table State) : Prop :=
  List.Forall₂ (fun e e' => e'.1 = e.1 ∧ e.2.Gains a e'.2) states states'

namespace Gained

variable {a : Transition} {states states' : Table State}

theorem keys_eq (h : Gained a states states') : Table.keys states' = Table.keys states := by
  induction h with
  | nil => rfl
  | cons he _ ih => exact congrArg₂ List.cons he.1 ih

theorem put (h : Gained a states states') (name : String) {s s' : State} (hs : s.Gains a s') :
    Gained a (Table.put states name s) (Table.put states' name s') := by
  induction h with
  | nil => exact .cons ⟨rfl, hs⟩ .nil
  | @cons e e' states states' he ht ih =>
    obtain ⟨key, u⟩ := e
    obtain ⟨key', u'⟩ := e'
    obtain ⟨rfl, hu⟩ := he
    rw [Table.put, Table.put]
    dsimp only
    split
    · exact .cons ⟨rfl, hs⟩ ht
    · exact .cons ⟨rfl, hu⟩ ih

theorem get? (h : Gained a states states') (name : String) :
    Option.Rel (State.Gains a) (Table.get? states name) (Table.get? states' name) := by
  induction h with
  | nil => exact .none
  | @cons e e' states states' he _ ih =>
    obtain ⟨key, u⟩ := e
    obtain ⟨key', u'⟩ := e'
    obtain ⟨rfl, hu⟩ := he
    rw [Table.get?_cons, Table.get?_cons]
    dsimp only
    split
    · exact .some hu
    · exact ih

end Gained

theorem State.Gains.name_eq {a : Transition} {s s' : State} (h : s.Gains a s') :
    s'.name = s.name := by
  rcases h with rfl | ⟨i, rfl⟩ <;> rfl

theorem Generator.statesFrom_gains {ρ : Type} {g g' : Generator ρ} {a : Transition}
    {rs rs' : List ρ} {states states' out : Table State} {c c' : Context ρ}
    (h : List.Forall₂ (fun r r' => (g'.diagram.block r').site = (g.diagram.block r).site ∧
      ∀ {c s c'}, g.state (g.diagram.block r) c = .ok s c' →
        ∃ s', g'.state (g'.diagram.block r') c = .ok s' c' ∧ s.Gains a s') rs rs')
    (ht : Gained a states states') (hr : g.statesFrom states rs c = .ok out c') :
    ∃ out', g'.statesFrom states' rs' c = .ok out' c' ∧ Gained a out out' := by
  induction h generalizing states states' c with
  | nil =>
    obtain ⟨rfl, rfl⟩ := Compile.pure_eq_ok.1 hr
    exact ⟨states', rfl, ht⟩
  | @cons r r' rs rs' hb _ ih =>
    obtain ⟨s, c₁, c₂, hs, hc, hr⟩ := statesFrom_cons_eq_ok hr
    obtain ⟨s', hs', hg⟩ := hb.2 hs
    obtain ⟨out', ho, hout⟩ := ih (ht.put s.name hg) hr
    refine ⟨out', ?_, hout⟩
    rw [statesFrom, Watch.statesFrom]
    refine Compile.bind_eq_ok.2 ⟨s', c₁, hs', ?_⟩
    rw [Table.contains, ht.keys_eq, hg.name_eq, hb.1]
    rw [hc] at ho
    split
    · rename_i hm
      rw [if_pos (List.contains_iff_mem.1 hm)] at ho
      exact Compile.bind_eq_ok.2 ⟨(), _, rfl, ho⟩
    · rename_i hm
      rw [if_neg (mt List.contains_iff_mem.2 hm)] at ho
      exact ho

namespace Generator

variable {ρ : Type} {g g' : Generator ρ} {c c' : Context ρ}

theorem opening_of_states {root root' : ρ} {beside : List ρ} {opened : String × Table State}
    {Q : Table State → Table State → Prop}
    (hl : (g'.diagram.block root').toLabel = (g.diagram.block root).toLabel)
    (hp : g'.preamble beside = g.preamble beside)
    (hs : ∀ {rs}, g.diagram.stack ((g.diagram.block root).head? "STATES") = .ok rs →
      ∃ rs', g'.diagram.stack ((g'.diagram.block root').head? "STATES") = .ok rs' ∧
        ∀ {c out c'}, g.statesFrom [] rs c = .ok out c' →
          ∃ out', g'.statesFrom [] rs' c = .ok out' c' ∧ Q out out')
    (h : g.opening root beside c = .ok opened c') :
    ∃ states, g'.opening root' beside c = .ok (opened.1, states) c' ∧ Q opened.2 states := by
  have hk : (g'.diagram.block root').kind = (g.diagram.block root).kind := congrArg Label.kind hl
  rw [opening] at h ⊢
  rw [hk, Block.fieldText_congr hl, hp]
  split at h
  · cases h
  · rename_i hkind
    rw [if_neg hkind]
    obtain ⟨u, c₁, h₁, h⟩ := Compile.bind_eq_ok.1 h
    obtain ⟨initial, c₂, h₂, h⟩ := Compile.bind_eq_ok.1 h
    obtain ⟨rs, _, h₃, h⟩ := Compile.bind_eq_ok.1 h
    obtain ⟨hr, rfl⟩ := Compile.lift_eq_ok.1 h₃
    obtain ⟨out, c₄, h₄, h⟩ := Compile.bind_eq_ok.1 h
    obtain ⟨rfl, rfl⟩ := Compile.pure_eq_ok.1 h
    obtain ⟨rs', hr', hrun⟩ := hs hr
    obtain ⟨out', ho, hq⟩ := hrun h₄
    refine ⟨out', ?_, hq⟩
    refine Compile.bind_eq_ok.2 ⟨u, c₁, h₁, Compile.bind_eq_ok.2 ⟨initial, c₂, h₂, ?_⟩⟩
    refine Compile.bind_eq_ok.2 ⟨rs', c₂, Compile.lift_eq_ok.2 ⟨hr', rfl⟩, ?_⟩
    exact Compile.bind_eq_ok.2 ⟨out', c₄, ho, rfl⟩

theorem closing_run {site : Site} {opened : String × Table State} {transitions : List Transition}
    {p : Program} (h : closing site opened transitions c = .ok p c') (site' : Site)
    (opened' : String × Table State) (transitions' : List Transition) :
    ∃ c₁, closing site' opened' transitions' c =
      .ok (assembled opened' transitions' c.definitions.entries) c₁ := by
  obtain ⟨definitions, c₁, hd, -⟩ := Compile.bind_eq_ok.1 h
  obtain ⟨rfl, -⟩ := Compile.drain_eq_ok hd
  exact ⟨_, Compile.bind_eq_ok.2 ⟨_, c₁, hd, rfl⟩⟩

end Generator

theorem Diagram.compile_eq_ok_iff {ρ : Type} {d : Diagram ρ} {root : ρ} {beside : List ρ}
    {p : Program} : (d.compile root beside).result = .ok p ↔
      ∃ opened rs transitions c c' c₁,
        d.generator.opening root beside {} = .ok opened c ∧
        d.stack ((d.block root).head? "GLOBAL_TRANSITIONS") = .ok rs ∧
        rs.mapM d.generator.globalBlock c = .ok transitions c' ∧
        Generator.closing (d.block root).site opened transitions c' = .ok p c₁ := by
  constructor
  · intro h
    obtain ⟨c₁, hp, -⟩ := Compile.start_eq_ok h
    obtain ⟨opened, rs, transitions, c, c', hp⟩ := Generator.program_eq_ok_iff.1 hp
    exact ⟨opened, rs, transitions, c, c', c₁, hp⟩
  · rintro ⟨opened, rs, transitions, c, c', c₁, hp⟩
    have hrun : d.generator.program root beside {} = .ok p c₁ :=
      Generator.program_eq_ok_iff.2 ⟨opened, rs, transitions, c, c', hp⟩
    rw [compile, Compile.start, hrun]

end BlockMachine
