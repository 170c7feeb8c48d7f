import BlockMachine.Compiler.Assembly
import BlockMachine.Proofs.Compiler.Settled
import BlockMachine.Proofs.Compiler.Steps

namespace BlockMachine

/-- One step of work on the table of definitions. -/
inductive Deed where
  | reserve (name text : String)
  | register (name text : String)

namespace Deed

def apply (d : Definitions) : Deed → Definitions
  | .reserve name text => d.reserve name text
  | .register name text => d.register name text

end Deed

def Definitions.after (d : Definitions) (deeds : List Deed) : Definitions :=
  deeds.foldl Deed.apply d

theorem Definitions.after_append (d : Definitions) (ds es : List Deed) :
    d.after (ds ++ es) = (d.after ds).after es :=
  List.foldl_append

@[simp] theorem Definitions.drained_after (d : Definitions) (ds : List Deed) :
    (d.after ds).drained = d.drained := by
  induction ds generalizing d with
  | nil => rfl
  | cons deed ds ih => cases deed <;> exact ih _

namespace Compile

variable {ρ α β : Type}

/-- What a run comes to. -/
def comesTo : EStateM.Result Fault (Context ρ) α → Except Fault α
  | .ok a _ => .ok a
  | .error f _ => .error f

theorem result_start (x : Compile ρ α) : x.start.result = comesTo (x {}) := by
  rw [start]
  cases x {} <;> rfl

/-- The run has the result, and on success it leaves the table as given. -/
inductive Leaves (result : Except Fault α) (d : Definitions) :
    EStateM.Result Fault (Context ρ) α → Prop
  | ok {a : α} {c : Context ρ} : result = .ok a → c.definitions = d → Leaves result d (.ok a c)
  | error {f : Fault} {c : Context ρ} : result = .error f → Leaves result d (.error f c)

theorem Leaves.comesTo {result : Except Fault α} {d : Definitions}
    {u : EStateM.Result Fault (Context ρ) α} (h : Leaves result d u) : comesTo u = result := by
  cases h with
  | ok hr _ => exact hr.symm
  | error hr => exact hr.symm

/-- Wherever the step starts from, it has the same result, and if it succeeds it has done the
deeds. -/
def Does (x : Compile ρ α) (deeds : List Deed) : Prop :=
  ∀ c, c.definitions.drained = false → Leaves x.start.result (c.definitions.after deeds) (x c)

/-- Wherever the step starts from, it comes to the same machine, but that the table is handed out
as it is with the deeds done by then. -/
def Closes (x : Compile ρ Program) (deeds : List Deed) : Prop :=
  ∀ c, c.definitions.drained = false →
    comesTo (x c) = x.start.result.map fun p =>
      { p with definitions := (c.definitions.after deeds).entries }

namespace Does

variable {ds es : List Deed}

theorem start_bind {x : Compile ρ α} {k : α → Compile ρ β} (hx : x.Does ds)
    (hk : ∀ a, x.start.result = .ok a → (k a).Does es) :
    (x >>= k).start.result = x.start.result >>= fun a => (k a).start.result := by
  have hl := hx {} rfl
  rw [result_start (x >>= k)]
  change comesTo (EStateM.bind x k {}) = _
  rw [EStateM.bind]
  generalize x {} = u at hl ⊢
  cases hl with
  | error hr =>
    rw [hr]
    rfl
  | @ok a c hr hd =>
    rw [hr]
    apply (hk a hr c _).comesTo
    rw [hd]
    exact Definitions.drained_after _ _

theorem bind {x : Compile ρ α} {k : α → Compile ρ β} (hx : x.Does ds)
    (hk : ∀ a, x.start.result = .ok a → (k a).Does es) : (x >>= k).Does (ds ++ es) := by
  intro c hc
  have hl := hx c hc
  change Leaves _ _ (EStateM.bind x k c)
  rw [EStateM.bind, Definitions.after_append]
  generalize x c = u at hl ⊢
  cases hl with
  | error hr =>
    apply Leaves.error
    rw [hx.start_bind hk, hr]
    rfl
  | @ok a c' hr hd =>
    rw [hx.start_bind hk, hr, ← hd]
    apply hk a hr
    rw [hd, Definitions.drained_after]
    exact hc

theorem pure (a : α) : (Pure.pure a : Compile ρ α).Does [] := fun _ _ => .ok rfl rfl

/-- A step that fails does nothing that would count. -/
theorem fail (f : Fault) : (Compile.fail f : Compile ρ α).Does ds := fun _ _ => .error rfl

theorem lift (x : Except Fault α) : (Compile.lift x : Compile ρ α).Does [] := by
  cases x with
  | ok a => exact .pure a
  | error f => exact .fail f

theorem map {x : Compile ρ α} (hx : x.Does ds) (g : α → β) :
    (x >>= fun a => Pure.pure (g a)).Does ds := by
  have h := hx.bind fun a _ => Does.pure (g a)
  rw [List.append_nil] at h
  exact h

theorem after {x : Compile ρ α} {k : α → Compile ρ β} (hx : x.Does [])
    (hk : ∀ a, x.start.result = .ok a → (k a).Does ds) : (x >>= k).Does ds :=
  hx.bind hk

theorem log (e : Event) : (Compile.log e : Compile ρ Unit).Does [] := fun _ _ => .ok rfl rfl

theorem register (name text : String) :
    (Compile.register name text : Compile ρ Unit).Does [.register name text] :=
  fun _ _ => .ok rfl rfl

theorem reserve (name text : String) :
    (Compile.reserve name text : Compile ρ Unit).Does [.reserve name text] :=
  fun _ _ => .ok rfl rfl

theorem mapM {xs : List α} {k : α → Compile ρ β} {deeds : α → List Deed}
    (h : ∀ a ∈ xs, (k a).Does (deeds a)) : (xs.mapM k).Does (xs.flatMap deeds) := by
  induction xs with
  | nil => exact .pure []
  | cons a xs ih =>
    obtain ⟨ha, hxs⟩ := List.forall_mem_cons.1 h
    rw [List.mapM_cons, List.flatMap_cons]
    exact ha.bind fun b _ => (ih hxs).map (b :: ·)

theorem forM {xs : List α} {k : α → Compile ρ Unit} {deeds : α → List Deed}
    (h : ∀ a ∈ xs, (k a).Does (deeds a)) : (xs.forM k).Does (xs.flatMap deeds) := by
  induction xs with
  | nil => exact .pure ()
  | cons a xs ih =>
    obtain ⟨ha, hxs⟩ := List.forall_mem_cons.1 h
    rw [List.flatMap_cons]
    exact ha.bind fun _ _ => ih hxs

theorem start_visiting {ts : List Tree} {t : Tree} {x : Compile Tree α} (hx : x.Does ds) :
    (Compile.visiting (Tree.diagram ts) t x).start.result = x.start.result := by
  have hl := hx { active := [t] } rfl
  rw [← hl.comesTo, result_start, Compile.visiting, Tree.seen_diagram]
  dsimp only
  cases x { active := [t] } <;> rfl

theorem visiting {ts : List Tree} {t : Tree} {x : Compile Tree α} (hx : x.Does ds) :
    (Compile.visiting (Tree.diagram ts) t x).Does ds := by
  intro c hc
  rw [hx.start_visiting, Compile.visiting, Tree.seen_diagram]
  have hl := hx { c with active := t :: c.active } hc
  generalize x _ = u at hl ⊢
  cases hl with
  | ok hr hd => exact .ok hr hd
  | error hr => exact .error hr

theorem comesTo_bind {x : Compile ρ α} {k : α → Compile ρ Program} (hx : x.Does ds)
    (hk : ∀ a, x.start.result = .ok a → (k a).Closes es) {c : Context ρ}
    (hc : c.definitions.drained = false) :
    comesTo ((x >>= k) c) = x.start.result >>= fun a => (k a).start.result.map fun p =>
      { p with definitions := (c.definitions.after (ds ++ es)).entries } := by
  have hl := hx c hc
  change comesTo (EStateM.bind x k c) = _
  rw [EStateM.bind, Definitions.after_append]
  generalize x c = u at hl ⊢
  cases hl with
  | error hr =>
    rw [hr]
    rfl
  | @ok a c₁ hr hd =>
    have hc₁ : c₁.definitions.drained = false := by
      rw [hd, Definitions.drained_after]
      exact hc
    rw [hr, ← hd]
    exact hk a hr c₁ hc₁

theorem closes {x : Compile ρ α} {k : α → Compile ρ Program} (hx : x.Does ds)
    (hk : ∀ a, x.start.result = .ok a → (k a).Closes es) : (x >>= k).Closes (ds ++ es) := by
  intro c hc
  rw [result_start (x >>= k), hx.comesTo_bind hk hc, hx.comesTo_bind hk rfl]
  cases x.start.result with
  | error f => rfl
  | ok a =>
    change (k a).start.result.map _ = ((k a).start.result.map _).map _
    cases (k a).start.result <;> rfl

end Does

theorem Closes.drain {k : Table String → Compile ρ Program} {p : Program}
    (hk : ∀ entries c, comesTo (k entries c) = .ok { p with definitions := entries }) :
    (Compile.drain >>= k).Closes [] := by
  have hd (c : Context ρ) (hc : c.definitions.drained = false) :
      comesTo ((Compile.drain >>= k) c) = .ok { p with definitions := c.definitions.entries } := by
    change comesTo (EStateM.bind Compile.drain k c) = _
    rw [EStateM.bind, drain_of_fresh hc]
    exact hk _ _
  intro c hc
  rw [result_start, hd c hc, hd {} rfl]
  rfl

end Compile

end BlockMachine
