import BlockMachine.Proofs.Compiler.Growth

namespace BlockMachine

variable {ρ α : Type}

/-- What a compiler can be asked for in the course of a compilation. What is collected from a stack
is itself built by such operations. -/
inductive Operation (ρ : Type) : Type → Type 1
  | expression (r : ρ) : Operation ρ Expression
  | statement (r : ρ) : Operation ρ String
  | value (child : Option ρ) (context : Order) (default : String) : Operation ρ Expression
  | fragments (top : Option ρ) : Operation ρ (List String)
  | sequence (top : Option ρ) : Operation ρ String
  | records (top : Option ρ) : Operation ρ String
  | collect {α : Type} (top : Option ρ) (build : Block ρ → Operation ρ α) : Operation ρ (List α)
  | state (b : Block ρ) : Operation ρ State
  | localTransition (b : Block ρ) : Operation ρ Transition
  | globalTransition (b : Block ρ) (tier : Tier) : Operation ρ Transition

namespace Operation

def run (g : Generator ρ) {α : Type} : Operation ρ α → Compile ρ α
  | expression r => g.expression r
  | statement r => g.statement r
  | value child context default => g.value child context default
  | fragments top => g.fragments top
  | sequence top => g.sequence top
  | records top => g.records top
  | collect top build => g.collect top fun b => (build b).run g
  | state b => g.state b
  | localTransition b => g.localTransition b
  | globalTransition b tier => g.globalTransition b tier

/-- The context after some operations, one after the other, however each of them ends. -/
def session (g : Generator ρ) (os : List (Σ α : Type, Operation ρ α)) (c : Context ρ) : Context ρ :=
  os.foldl (fun c o => Compile.left (o.2.run g c)) c

/-- The operation starts from such blocks only. What is built from a block starts from the blocks
that it refers to. -/
def Within (P : ρ → Prop) {α : Type} : Operation ρ α → Prop
  | expression r => P r
  | statement r => P r
  | value child _ _ => ∀ r ∈ child, P r
  | fragments top => ∀ r ∈ top, P r
  | sequence top => ∀ r ∈ top, P r
  | records top => ∀ r ∈ top, P r
  | collect top build =>
    (∀ r ∈ top, P r) ∧ ∀ (b : Block ρ) (Q : ρ → Prop), (∀ u, b.Links u → Q u) → (build b).Within Q
  | state b => ∀ u, b.Links u → P u
  | localTransition b => ∀ u, b.Links u → P u
  | globalTransition b _ => ∀ u, b.Links u → P u

theorem Within.mono {P Q : ρ → Prop} (hPQ : ∀ r, P r → Q r) {o : Operation ρ α}
    (h : o.Within P) : o.Within Q := by
  cases o with
  | expression r => exact hPQ r h
  | statement r => exact hPQ r h
  | value | fragments | sequence | records => exact fun r hr => hPQ r (h r hr)
  | collect top build => exact ⟨fun r hr => hPQ r (h.1 r hr), h.2⟩
  | state | localTransition | globalTransition => exact fun u hu => hPQ u (h u hu)

theorem grows {g : Generator ρ} (hg : g.Growing) (o : Operation ρ α) :
    (o.run g).Grows g.diagram.Hoists := by
  have hs (r : ρ) : (g.statement r).Grows g.diagram.Hoists :=
    (hg.statement r).mono fun _ hd => hd.hoists
  have hf (top : Option ρ) : (g.fragments top).Grows g.diagram.Hoists :=
    Generator.Growing.fragments fun _ _ r _ => hs r
  induction o with
  | expression r => exact (hg.expression r).mono fun _ => .use
  | statement r => exact hs r
  | value child context default => exact hg.valueIn (fun _ => .use) child context default
  | fragments top => exact hf top
  | sequence top => exact (hf top).map _
  | records top => exact (hf top).map _
  | collect top build ih =>
    exact (Compile.Grows.lift _).bind fun _ => .mapM fun _ => (ih _).visiting
  | state b => exact hg.state b
  | localTransition b => exact hg.localTransition (fun _ => .use) b
  | globalTransition b tier => exact hg.globalTransition (fun _ => .use) b tier

theorem active_run (d : Diagram ρ) (o : Operation ρ α) (c : Context ρ) :
    (Compile.left (o.run d.generator c)).active = c.active :=
  (o.grows (Generator.growing_ofDepth d _) c).active

theorem active_session (d : Diagram ρ) (os : List (Σ α : Type, Operation ρ α)) (c : Context ρ) :
    (session d.generator os c).active = c.active := by
  induction os generalizing c with
  | nil => rfl
  | cons o os ih => exact (ih _).trans (active_run d o.2 c)

end Operation

namespace Diagram

variable {d : Diagram ρ} {rs rs' : List ρ} {r u : ρ} {b : Block ρ}

/-- Block `u` stands in a socket of block `r` or right below it. -/
def Link (d : Diagram ρ) (r u : ρ) : Prop := (d.block r).Links u

/-- From block `r` on one comes to none of the blocks `rs`, and not back to a block either. -/
structure Clear (d : Diagram ρ) (rs : List ρ) (r : ρ) : Prop where
  apart {u : ρ} : Relation.ReflTransGen d.Link r u → d.seen u rs = false
  acyclic {u v : ρ} : Relation.ReflTransGen d.Link r u → Relation.TransGen d.Link u v →
    d.same v u = false

namespace Clear

theorem nil (h : d.Clear rs r) : d.Clear [] r := ⟨fun _ => rfl, h.acyclic⟩

theorem links (h : d.Clear rs r) (hu : d.Link r u) : d.Clear rs u :=
  ⟨fun hv => h.apart (.head hu hv), fun hv => h.acyclic (.head hu hv)⟩

theorem inside (h : d.Clear rs r) (hu : d.Link r u) : d.Clear (r :: rs) u := by
  refine ⟨fun {v} hv => ?_, fun hv => h.acyclic (.head hu hv)⟩
  have hs : d.same v r = false := h.acyclic .refl (Relation.TransGen.head' hu hv)
  have ha : d.seen v rs = false := h.apart (.head hu hv)
  rw [seen, List.any_cons, hs]
  exact ha

end Clear

variable (d rs rs') in
/-- One diagram compiled inside two lists of blocks, from blocks on that are clear of both. -/
def apart : Matching ρ ρ where
  refs r r' := r' = r ∧ d.Clear rs r ∧ d.Clear rs' r
  active us us' := us = rs ∧ us' = rs'
  fault := Eq
  event := Eq
  fault_refl _ := rfl
  fault_trans := Eq.trans

namespace Apart

theorem rel_self {child : Option ρ} (h : ∀ u ∈ child, d.Clear rs u ∧ d.Clear rs' u) :
    Option.Rel (d.apart rs rs').refs child child := by
  cases child with
  | none => exact .none
  | some u => exact .some ⟨rfl, h u rfl⟩

theorem blocks_self (h : ∀ u, b.Links u → d.Clear rs u ∧ d.Clear rs' u) :
    (d.apart rs rs').Blocks b b where
  kind := rfl
  fault _ := rfl
  format _ := rfl
  event _ := rfl
  field? _ := rfl
  hasElse := rfl
  value? _ := rel_self fun u hu => h u (.of_value? hu)
  head? _ := rel_self fun u hu => h u (.of_head? hu)
  next := rel_self fun u hu => h u (.next hu)

theorem counts_self : (d.apart rs rs').Counts b b where
  slots _ := .of_eq rfl fun _ _ => rfl
  branches _ := .of_eq rfl fun _ _ => rfl

theorem reads : (d.apart rs rs').Reads d d where
  block := by
    rintro _ r ⟨rfl, h, h'⟩
    exact blocks_self fun u hu => ⟨h.links hu, h'.links hu⟩
  stack := by
    rintro _ r ⟨rfl, h⟩
    cases hs : d.stack (some r) with
    | error f => exact .error rfl
    | ok us =>
      have hus := forall_mem_stackFrom
        (fun {r u} (hr : d.Clear rs r ∧ d.Clear rs' r) hn =>
          ⟨hr.1.links (.next hn), hr.2.links (.next hn)⟩)
        (fun u hu => Option.some.inj hu ▸ h) hs
      exact .ok (List.forall₂_same.2 fun u hu => ⟨rfl, hus u hu⟩)

theorem visiting {β : Type} {R : α → β → Prop} {x : Compile ρ α} {y : Compile ρ β}
    (h : d.Clear rs r) (h' : d.Clear rs' r) (hx : (d.apart (r :: rs) (r :: rs')).Runs R x y) :
    (d.apart rs rs').Runs R (Compile.visiting d r x) (Compile.visiting d r y) := by
  refine Matching.Runs.visiting (n := d.apart (r :: rs) (r :: rs')) ?_ ?_ ?_ rfl ?_ rfl rfl
  · rintro _ _ ⟨rfl, rfl⟩
    rw [h.apart .refl, h'.apart .refl]
  · rintro _ _ ⟨rfl, rfl⟩
    exact ⟨rfl, rfl⟩
  · rintro _ _ ⟨rfl, rfl⟩
    exact ⟨rfl, rfl⟩
  · intro _ _ _ _
    exact hx

theorem generators (d : Diagram ρ) (n : Nat) (rs rs' : List ρ) :
    (d.apart rs rs').Generators (.ofDepth d n) (.ofDepth d n) := by
  induction n generalizing rs rs' with
  | zero => exact ⟨reads, fun _ => .fail rfl, fun _ => .fail rfl⟩
  | succ n ih =>
    have hin {r : ρ} (h : d.Clear rs r) (h' : d.Clear rs' r) :
        (d.apart (r :: rs) (r :: rs')).Blocks (d.block r) (d.block r) :=
      blocks_self fun u hu => ⟨h.inside hu, h'.inside hu⟩
    refine ⟨reads, ?_, ?_⟩
    · rintro _ r ⟨rfl, h, h'⟩
      rw [Generator.expression_succ]
      cases hk : ValueRule.ofKind? (d.block r).kind with
      | none => exact .fail rfl
      | some rule => exact visiting h h' ((ih _ _).inValue (hin h h') counts_self hk)
    · rintro _ r ⟨rfl, h, h'⟩
      rw [Generator.statement_succ]
      cases hk : StatementRule.ofKind? (d.block r).kind with
      | none => exact .fail rfl
      | some rule => exact visiting h h' ((ih _ _).inStatement (hin h h') counts_self hk)

theorem collect {n : Nat} {top : Option ρ} {build : Block ρ → Compile ρ α}
    (ht : ∀ r ∈ top, d.Clear rs r ∧ d.Clear rs' r)
    (hb : ∀ r, d.Clear rs r → d.Clear rs' r →
      (d.apart (r :: rs) (r :: rs')).Runs Eq (build (d.block r)) (build (d.block r))) :
    (d.apart rs rs').Runs Eq ((Generator.ofDepth d n).collect top build)
      ((Generator.ofDepth d n).collect top build) := by
  refine (generators d n rs rs').collect (w := .idle) (rel_self ht) ?_
  rintro _ r ⟨rfl, h, h'⟩
  rw [Generator.diagram_ofDepth, Watch.visiting_idle]
  exact visiting h h' (hb r h h')

theorem localTransition {n : Nat} (h : d.Clear rs r) (h' : d.Clear rs' r) :
    (d.apart (r :: rs) (r :: rs')).Runs Eq
      ((Generator.ofDepth d n).localTransition (d.block r))
      ((Generator.ofDepth d n).localTransition (d.block r)) :=
  (generators d n _ _).localTransition (blocks_self fun _ hu => ⟨h.inside hu, h'.inside hu⟩)

theorem builders (d : Diagram ρ) (n : Nat) (rs rs' : List ρ) :
    (d.apart rs rs').Builders .idle (.ofDepth d n) (.ofDepth d n) where
  toGenerators := generators d n rs rs'
  transition := by
    rintro _ r ⟨rfl, h, h'⟩
    rw [Generator.diagram_ofDepth, Watch.visiting_idle]
    exact visiting h h' (localTransition h h')

theorem runs_operation (d : Diagram ρ) (n : Nat) (o : Operation ρ α)
    (h : o.Within fun r => d.Clear rs r ∧ d.Clear rs' r) :
    (d.apart rs rs').Runs Eq (o.run (.ofDepth d n)) (o.run (.ofDepth d n)) := by
  have hg (rs rs' : List ρ) := builders d n rs rs'
  induction o generalizing rs rs' with
  | expression r => exact (hg _ _).expression ⟨rfl, h⟩
  | statement r => exact (hg _ _).statement ⟨rfl, h⟩
  | value child context default => exact (hg _ _).value (rel_self h) context default
  | fragments top => exact (hg _ _).fragments (rel_self h)
  | sequence top => exact (hg _ _).sequence (rel_self h)
  | records top => exact ((hg _ _).fragments (rel_self h)).bind_eq fun _ => .pure rfl
  | collect top build ih =>
    apply collect h.1
    intro r hr hr'
    exact ih (d.block r) (h.2 _ _ fun u hu => ⟨hr.inside hu, hr'.inside hu⟩)
  | state b => exact (hg _ _).state (blocks_self h)
  | localTransition b => exact (hg _ _).localTransition (blocks_self h)
  | globalTransition b tier => exact (hg _ _).globalTransition (blocks_self h) tier

end Apart
end Diagram

/-- The same end of a run inside other blocks. -/
def Compile.inside (rs : List ρ) :
    EStateM.Result Fault (Context ρ) α → EStateM.Result Fault (Context ρ) α
  | .ok a c => .ok a { c with active := rs }
  | .error f c => .error f { c with active := rs }

theorem Diagram.Apart.eq_inside {d : Diagram ρ} {rs rs' : List ρ}
    {u v : EStateM.Result Fault (Context ρ) α} (h : (d.apart rs rs').Ends Eq u v) :
    u = Compile.inside rs v := by
  have hc {c c' : Context ρ} (hc : (d.apart rs rs').Contexts c c') :
      c = { c' with active := rs } := by
    obtain ⟨definitions, active, events⟩ := c
    obtain ⟨rfl, ⟨rfl, -⟩, he⟩ := hc
    obtain rfl := List.forall₂_eq_eq_eq ▸ he
    rfl
  cases h with
  | ok ha hk =>
    cases ha
    exact congrArg _ (hc hk)
  | error hf hk =>
    cases hf
    exact congrArg _ (hc hk)

/-- Every operation ends inside the blocks in which it began, whether it succeeds or fails. After
any operations, whichever of them have failed, a compiler comes to the same answer or fault, to the
same definitions and to the same events as one that is not inside any block and has the same
definitions, from all blocks on that lead to no circle and to none of the blocks it is inside. -/
theorem Diagram.blocks_released (d : Diagram ρ) (c : Context ρ) :
    (∀ {α : Type} (o : Operation ρ α),
      (Compile.left (o.run d.generator c)).active = c.active) ∧
    ∀ (os : List (Σ α : Type, Operation ρ α)) {α : Type} (o : Operation ρ α),
      o.Within (d.Clear c.active) →
      o.run d.generator (Operation.session d.generator os c) =
        Compile.inside c.active
          (o.run d.generator { Operation.session d.generator os c with active := [] }) := by
  refine ⟨fun o => o.active_run d c, ?_⟩
  intro os α o ho
  have hw : o.Within fun r => d.Clear c.active r ∧ d.Clear [] r :=
    ho.mono fun r hr => ⟨hr, hr.nil⟩
  apply Apart.eq_inside
  apply Apart.runs_operation d _ o hw
  exact ⟨rfl, ⟨Operation.active_session d os c, rfl⟩, List.forall₂_eq_eq_eq ▸ rfl⟩

namespace Sketch

variable {s : Sketch} {rs : List (Fin s.size)} {r : Fin s.size}

theorem clear_of_lt {S : Fin s.size → Prop} (hr : S r)
    (hS : ∀ r u, S r → (s.block r).Links u → S u ∧ r < u) (hd : ∀ r ∈ rs, ¬ S r) :
    s.diagram.Clear rs r := by
  have hreach {r u : Fin s.size} (hr : S r) (h : Relation.ReflTransGen s.diagram.Link r u) :
      S u := by
    induction h with
    | refl => exact hr
    | tail _ hl ih => exact (hS _ _ ih hl).1
  have hlt {r u : Fin s.size} (hr : S r) (h : Relation.TransGen s.diagram.Link r u) : r < u := by
    induction h with
    | single hl => exact (hS _ _ hr hl).2
    | tail hv hl ih => exact Nat.lt_trans ih (hS _ _ (hreach hr hv.to_reflTransGen) hl).2
  refine ⟨fun {u} hu => ?_, fun {u v} hu hv => ?_⟩
  · apply seen_of_not_mem
    intro hm
    exact hd u hm (hreach hr hu)
  · apply beq_false_of_ne
    rintro rfl
    exact Nat.lt_irrefl _ (hlt (hreach hr hu) hv)

/-- Two negations that stand inside each other, and one of a constant beside them. -/
def entangled : Sketch where
  size := 4
  block
    | 0 => { kind := "logic_negate", values := [("BOOL", some 1)] }
    | 1 => { kind := "logic_negate", id := some "b", values := [("BOOL", some 0)] }
    | 2 => { kind := "logic_negate", values := [("BOOL", some 3)] }
    | 3 => { kind := "custom_constant_get", fields := [("NAME", .text "x")] }

/-- Inside one of the first two negations, compiling the other one fails, and the third one is
compiled after that as it is outside. -/
theorem entangled_released :
    let g := entangled.diagram.generator
    let c : Context (Fin entangled.size) := { active := [(1 : Fin 4)] }
    let failing : Operation (Fin entangled.size) Expression := .expression (0 : Fin 4)
    let o : Operation (Fin entangled.size) Expression := .expression (2 : Fin 4)
    failing.run g c = .error (.rule (.cycle ⟨some "b", "logic_negate"⟩)) c ∧
      o.Within (entangled.diagram.Clear c.active) ∧
      o.run g (Compile.left (failing.run g c)) = Compile.inside [(1 : Fin 4)]
        (o.run g { definitions := {} }) ∧
      o.run g { definitions := {} } =
        .ok ⟨"!x", .logicalNot⟩ { definitions.entries := [("x", "const x = undefined;")] } := by
  intro g c failing o
  have hf : failing.run g c = .error (.rule (.cycle ⟨some "b", "logic_negate"⟩)) c := by rfl
  have ho : o.Within (entangled.diagram.Clear c.active) :=
    clear_of_lt (S := fun r => 2 ≤ r.val) (by decide) (by decide) (by decide)
  exact ⟨hf, ho, (Diagram.blocks_released entangled.diagram c).2 [⟨_, failing⟩] o ho, by rfl⟩

end Sketch
end BlockMachine
