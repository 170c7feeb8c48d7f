import Mathlib.Data.List.Forall2
import BlockMachine.Compiler.Context

namespace BlockMachine

/-- Which references, faults and events of two compilations belong to each other, and which lists of
references are alike when a block is looked for among them. Only nesting that is too deep need not
match itself. -/
structure Matching (ρ σ : Type) where
  refs : ρ → σ → Prop
  active : List ρ → List σ → Prop
  fault : Fault → Fault → Prop
  event : Event → Event → Prop
  fault_refl : ∀ {f}, f ≠ .defect .tooDeep → fault f f
  fault_trans : ∀ {f g h}, fault f g → fault g h → fault f h

namespace Matching

variable {ρ σ α β γ δ : Type} (m : Matching ρ σ)

/-- Both answer, with related answers, or both fail. -/
inductive Answers (R : α → β → Prop) : Except Fault α → Except Fault β → Prop
  | ok {a : α} {b : β} : R a b → Answers R (.ok a) (.ok b)
  | error {f g : Fault} : m.fault f g → Answers R (.error f) (.error g)

structure Contexts (c : Context ρ) (c' : Context σ) : Prop where
  definitions : c.definitions = c'.definitions
  active : m.active c.active c'.active
  events : List.Forall₂ m.event c.events c'.events

/-- Both runs end in the same way. -/
inductive Ends (R : α → β → Prop) :
    EStateM.Result Fault (Context ρ) α → EStateM.Result Fault (Context σ) β → Prop
  | ok {a : α} {b : β} {c : Context ρ} {c' : Context σ} :
    R a b → m.Contexts c c' → Ends R (.ok a c) (.ok b c')
  | error {f g : Fault} {c : Context ρ} {c' : Context σ} :
    m.fault f g → m.Contexts c c' → Ends R (.error f c) (.error g c')

def Runs (R : α → β → Prop) (x : Compile ρ α) (y : Compile σ β) : Prop :=
  ∀ c c', m.Contexts c c' → m.Ends R (x c) (y c')

variable {m} {R : α → β → Prop} {Q : γ → δ → Prop}

theorem Answers.of_eq {x y : Except Fault α} (h : x = y) (hf : ∀ f, x = .error f → m.fault f f) :
    m.Answers Eq x y := by
  subst h
  cases x with
  | ok a => exact .ok rfl
  | error f => exact .error (hf f rfl)

theorem Answers.of_ok {x : Except Fault α} {y : Except Fault β} {b : β} (h : m.Answers R x y)
    (hy : y = .ok b) : ∃ a, x = .ok a ∧ R a b := by
  cases h with
  | ok hr =>
    cases hy
    exact ⟨_, rfl, hr⟩
  | error _ => cases hy

theorem Answers.exists_ok_iff {x : Except Fault α} {y : Except Fault β} (h : m.Answers R x y) :
    (∃ a, x = .ok a) ↔ ∃ b, y = .ok b := by
  cases h with
  | ok _ => exact ⟨fun _ => ⟨_, rfl⟩, fun _ => ⟨_, rfl⟩⟩
  | error _ => exact ⟨nofun, nofun⟩

theorem Answers.map {x : Except Fault α} {y : Except Fault β} {f : α → γ} {g : β → δ}
    (h : m.Answers R x y) (hf : ∀ a b, R a b → Q (f a) (g b)) :
    m.Answers Q (x.map f) (y.map g) := by
  cases h with
  | ok hr => exact .ok (hf _ _ hr)
  | error hf => exact .error hf

theorem Answers.bind_ok {x : Except Fault α} {y : Except Fault β} {f : α → Except Fault γ}
    {g : β → Except Fault δ} (h : m.Answers R x y)
    (hf : ∀ a b, x = .ok a → y = .ok b → R a b → m.Answers Q (f a) (g b)) :
    m.Answers Q (x >>= f) (y >>= g) := by
  cases h with
  | ok hr => exact hf _ _ rfl rfl hr
  | error he => exact .error he

theorem Answers.bind {x : Except Fault α} {y : Except Fault β} {f : α → Except Fault γ}
    {g : β → Except Fault δ} (h : m.Answers R x y)
    (hf : ∀ a b, R a b → m.Answers Q (f a) (g b)) : m.Answers Q (x >>= f) (y >>= g) :=
  h.bind_ok fun a b _ _ hr => hf a b hr

theorem Answers.mapM {xs : List α} {ys : List β} {f : α → Except Fault γ} {g : β → Except Fault γ}
    (h : List.Forall₂ R xs ys) (hf : ∀ a b, R a b → m.Answers Eq (f a) (g b)) :
    m.Answers Eq (xs.mapM f) (ys.mapM g) := by
  induction h with
  | nil => exact .ok rfl
  | cons hr _ ih =>
    rw [List.mapM_cons, List.mapM_cons]
    refine (hf _ _ hr).bind ?_
    rintro z _ rfl
    refine ih.bind ?_
    rintro zs _ rfl
    exact .ok rfl

namespace Runs

theorem pure {a : α} {b : β} (h : R a b) :
    m.Runs R (Pure.pure a : Compile ρ α) (Pure.pure b : Compile σ β) :=
  fun _ _ hc => .ok h hc

theorem bind {x : Compile ρ α} {y : Compile σ β} {f : α → Compile ρ γ} {g : β → Compile σ δ}
    (h : m.Runs R x y) (hf : ∀ a b, R a b → m.Runs Q (f a) (g b)) :
    m.Runs Q (x >>= f) (y >>= g) := by
  intro c c' hc
  have he := h c c' hc
  change m.Ends Q (EStateM.bind x f c) (EStateM.bind y g c')
  rw [EStateM.bind, EStateM.bind]
  generalize x c = u at he ⊢
  generalize y c' = v at he ⊢
  cases he with
  | ok hr hc => exact hf _ _ hr _ _ hc
  | error hf hc => exact .error hf hc

theorem bind_eq {x : Compile ρ α} {y : Compile σ α} {f : α → Compile ρ γ} {g : α → Compile σ δ}
    (h : m.Runs Eq x y) (hf : ∀ a, m.Runs Q (f a) (g a)) : m.Runs Q (x >>= f) (y >>= g) :=
  h.bind fun a _ he => he ▸ hf a

theorem fail {f g : Fault} (h : m.fault f g) :
    m.Runs R (Compile.fail f : Compile ρ α) (Compile.fail g : Compile σ β) :=
  fun _ _ hc => .error h hc

theorem lift {x : Except Fault α} {y : Except Fault β} (h : m.Answers R x y) :
    m.Runs R (Compile.lift x : Compile ρ α) (Compile.lift y : Compile σ β) := by
  cases h with
  | ok hr => exact .pure hr
  | error hf => exact fail hf

theorem log {e e' : Event} (h : m.event e e') :
    m.Runs Eq (Compile.log e : Compile ρ Unit) (Compile.log e' : Compile σ Unit) :=
  fun _ _ hc => .ok rfl ⟨hc.definitions, hc.active, List.rel_append hc.events (.cons h .nil)⟩

theorem modifyDefinitions (f : Definitions → Definitions) :
    m.Runs Eq (modify fun c => { c with definitions := f c.definitions } : Compile ρ Unit)
      (modify fun c => { c with definitions := f c.definitions } : Compile σ Unit) :=
  fun _ _ hc => .ok rfl ⟨congrArg f hc.definitions, hc.active, hc.events⟩

theorem get : m.Runs m.Contexts (get : Compile ρ (Context ρ)) (get : Compile σ (Context σ)) :=
  fun _ _ hc => .ok hc hc

theorem drain : m.Runs Eq (Compile.drain : Compile ρ (Table String)) Compile.drain := by
  refine get.bind fun c c' hc => ?_
  have hd : m.Answers Eq c.definitions.drain c'.definitions.drain := by
    rw [hc.definitions, Definitions.drain]
    split
    · exact .error (m.fault_refl nofun)
    · exact .ok rfl
  refine (lift hd).bind_eq fun ⟨entries, definitions⟩ => ?_
  exact (modifyDefinitions fun _ => definitions).bind_eq fun _ => .pure rfl

theorem mapM {xs : List α} {ys : List β} {f : α → Compile ρ γ} {g : β → Compile σ γ}
    (h : List.Forall₂ R xs ys) (hf : ∀ a b, R a b → m.Runs Eq (f a) (g b)) :
    m.Runs Eq (xs.mapM f) (ys.mapM g) := by
  induction h with
  | nil => exact .pure rfl
  | cons hr _ ih =>
    rw [List.mapM_cons, List.mapM_cons]
    exact (hf _ _ hr).bind_eq fun z => ih.bind_eq fun zs => .pure rfl

theorem forM {xs : List α} {ys : List β} {f : α → Compile ρ Unit} {g : β → Compile σ Unit}
    (h : List.Forall₂ R xs ys) (hf : ∀ a b, R a b → m.Runs Eq (f a) (g b)) :
    m.Runs Eq (xs.forM f) (ys.forM g) := by
  induction h with
  | nil => exact .pure rfl
  | cons hr _ ih => exact (hf _ _ hr).bind_eq fun _ => ih

end Runs
end Matching
end BlockMachine
