import BlockMachine.Compiler.Assembly
import BlockMachine.Proofs.Compiler.Making
import BlockMachine.Proofs.Script.Style

namespace BlockMachine

/-- Texts are of a style. Declarations of the style and faults that are reported are always
allowed. -/
structure Contract where
  style : Style
  declaration : String → Prop
  fault : Fault → Prop
  accepted : ∀ {s}, style.Accepts s → declaration s
  reported : ∀ {f : Fault}, f.report?.isSome → fault f

namespace Contract

variable {ρ α β : Type} (k : Contract)

theorem rule (f : RuleFault) : k.fault (.rule f) := k.reported rfl

/-- What is allowed in the table: a text under an identifier. -/
structure Declares (e : String × String) : Prop where
  name : Fixed [] [] e.1
  text : k.declaration e.2

/-- The table has not been handed out, and what it declares is allowed. -/
structure Keeps (d : Definitions) : Prop where
  drained : d.drained = false
  entries : ∀ e ∈ d.entries, k.Declares e

/-- An answer with the property, or a fault that is allowed. -/
inductive Answers (P : α → Prop) : Except Fault α → Prop
  | ok {a : α} : P a → Answers P (.ok a)
  | error {f : Fault} : k.fault f → Answers P (.error f)

/-- Behind a fault nothing is done any more, so that only success says something of the table. -/
inductive Ends (P : α → Prop) (D : Definitions → Prop) :
    EStateM.Result Fault (Context ρ) α → Prop
  | ok {a : α} {c : Context ρ} : P a → D c.definitions → Ends P D (.ok a c)
  | error {f : Fault} {c : Context ρ} : k.fault f → Ends P D (.error f c)

def Runs (P : α → Prop) (x : Compile ρ α) : Prop :=
  ∀ c, k.Keeps c.definitions → k.Ends P k.Keeps (x c)

/-- The last steps of a compilation may hand the table out. -/
def Finishes (P : α → Prop) (x : Compile ρ α) : Prop :=
  ∀ c, k.Keeps c.definitions → k.Ends P (fun _ => True) (x c)

variable {k} {P : α → Prop} {Q : β → Prop}

namespace Answers

theorem bind {x : Except Fault α} {f : α → Except Fault β} (h : k.Answers P x)
    (hf : ∀ a, P a → k.Answers Q (f a)) : k.Answers Q (x >>= f) := by
  cases h with
  | ok ha => exact hf _ ha
  | error hf => exact .error hf

theorem mapM {xs : List α} {f : α → Except Fault β} (h : ∀ a ∈ xs, k.Answers Q (f a)) :
    k.Answers (fun ys => ∀ b ∈ ys, Q b) (xs.mapM f) := by
  induction xs with
  | nil => exact .ok nofun
  | cons a xs ih =>
    obtain ⟨ha, hxs⟩ := List.forall_mem_cons.1 h
    rw [List.mapM_cons]
    refine ha.bind fun b hb => (ih hxs).bind fun bs hbs => ?_
    exact .ok (List.forall_mem_cons.2 ⟨hb, hbs⟩)

theorem fieldText (b : Block ρ) (name : String) : k.Answers b.Says (b.fieldText name) := by
  cases h : b.fieldText name with
  | ok s => exact .ok (Block.says_of_fieldText h)
  | error f =>
    rw [Block.fieldText, Block.field] at h
    cases hv : b.field? name with
    | none =>
      rw [hv] at h
      cases h
      exact .error (k.rule _)
    | some v =>
      rw [hv] at h
      cases h

end Answers

theorem Ends.bind {D E : Definitions → Prop} {x : Compile ρ α} {f : α → Compile ρ β}
    {c : Context ρ} (h : k.Ends P D (x c))
    (hf : ∀ a c, P a → D c.definitions → k.Ends Q E (f a c)) : k.Ends Q E ((x >>= f) c) := by
  change k.Ends Q E (EStateM.bind x f c)
  rw [EStateM.bind]
  generalize x c = u at h ⊢
  cases h with
  | ok ha hc => exact hf _ _ ha hc
  | error hf => exact .error hf

namespace Runs

theorem pure {a : α} (h : P a) : k.Runs P (Pure.pure a : Compile ρ α) := fun _ hc => .ok h hc

theorem bind {x : Compile ρ α} {f : α → Compile ρ β} (h : k.Runs P x)
    (hf : ∀ a, P a → k.Runs Q (f a)) : k.Runs Q (x >>= f) :=
  fun c hc => (h c hc).bind fun a c ha hc => hf a ha c hc

theorem fail {f : Fault} (h : k.fault f) : k.Runs P (Compile.fail f : Compile ρ α) :=
  fun _ _ => .error h

theorem lift {x : Except Fault α} (h : k.Answers P x) :
    k.Runs P (Compile.lift x : Compile ρ α) := by
  cases h with
  | ok ha => exact .pure ha
  | error hf => exact fail hf

theorem log (e : Event) : k.Runs (fun _ => True) (Compile.log e : Compile ρ Unit) :=
  fun _ hc => .ok trivial ⟨hc.drained, hc.entries⟩

theorem register {text : String} (h : k.declaration text) (name : String) :
    k.Runs (fun _ => True) (Compile.register name text : Compile ρ Unit) := by
  refine fun c hc => .ok trivial ⟨hc.drained, fun e he => ?_⟩
  rcases Table.mem_put he with rfl | he
  · exact ⟨.identifier name, h⟩
  · exact hc.entries e he

theorem reserve {text : String} (h : k.declaration text) (name : String) :
    k.Runs (fun _ => True) (Compile.reserve name text : Compile ρ Unit) := by
  refine fun c hc => .ok trivial ⟨hc.drained, fun e he => ?_⟩
  rcases Table.mem_reserve he with rfl | he
  · exact ⟨.identifier name, h⟩
  · exact hc.entries e he

theorem mapM {xs : List α} {f : α → Compile ρ β} (h : ∀ a ∈ xs, k.Runs Q (f a)) :
    k.Runs (fun ys => ∀ b ∈ ys, Q b) (xs.mapM f) := by
  induction xs with
  | nil => exact .pure nofun
  | cons a xs ih =>
    obtain ⟨ha, hxs⟩ := List.forall_mem_cons.1 h
    rw [List.mapM_cons]
    refine ha.bind fun b hb => (ih hxs).bind fun bs hbs => ?_
    exact .pure (List.forall_mem_cons.2 ⟨hb, hbs⟩)

theorem forM {xs : List α} {f : α → Compile ρ Unit} (h : ∀ a ∈ xs, k.Runs (fun _ => True) (f a)) :
    k.Runs (fun _ => True) (xs.forM f) := by
  induction xs with
  | nil => exact .pure trivial
  | cons a xs ih =>
    obtain ⟨ha, hxs⟩ := List.forall_mem_cons.1 h
    exact ha.bind fun _ _ => ih hxs

theorem visiting {d : Diagram ρ} {r : ρ} {x : Compile ρ α} (hx : k.Runs P x) :
    k.Runs P (Compile.visiting d r x) := by
  intro c hc
  rw [Compile.visiting]
  split
  · exact .error (k.rule _)
  · have he := hx { c with active := r :: c.active } hc
    generalize x _ = u at he ⊢
    cases he with
    | ok ha hc => exact .ok ha hc
    | error hf => exact .error hf

theorem finishes_bind {x : Compile ρ α} {f : α → Compile ρ β} (h : k.Runs P x)
    (hf : ∀ a, P a → k.Finishes Q (f a)) : k.Finishes Q (x >>= f) :=
  fun c hc => (h c hc).bind fun a c ha hc => hf a ha c hc

end Runs

namespace Finishes

theorem drain {f : Table String → Compile ρ β}
    (hf : ∀ entries, (∀ e ∈ entries, k.Declares e) → ∀ c,
      k.Ends Q (fun _ => True) (f entries c)) : k.Finishes Q (Compile.drain >>= f) := by
  intro c hc
  have hd : c.definitions.drain =
      .ok (c.definitions.entries, { c.definitions with drained := true }) := by
    rw [Definitions.drain, hc.drained]
    rfl
  have hx : k.Ends (fun entries => ∀ e ∈ entries, k.Declares e) (fun _ => True)
      ((Compile.drain : Compile ρ (Table String)) c) := by
    refine Ends.bind (.ok rfl trivial : k.Ends (· = c) (fun _ => True) (.ok c c)) ?_
    rintro _ c' rfl -
    rw [hd]
    exact .ok hc.entries trivial
  exact hx.bind fun entries c he _ => hf entries he c

theorem start {x : Compile ρ α} (h : k.Finishes P x) : k.Answers P x.start.result := by
  have he := h {} ⟨rfl, nofun⟩
  rw [Compile.start]
  generalize x {} = u at he ⊢
  cases he with
  | ok ha => exact .ok ha
  | error hf => exact .error hf

end Finishes

end Contract
end BlockMachine
