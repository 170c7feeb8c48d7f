import BlockMachine.Compiler.Context

namespace BlockMachine.Compile

variable {ρ α β : Type} {c c' : Context ρ} {a : α} {b : β}

theorem bind_eq_ok {x : Compile ρ α} {f : α → Compile ρ β} :
    (x >>= f) c = .ok b c' ↔ ∃ a c₁, x c = .ok a c₁ ∧ f a c₁ = .ok b c' := by
  change EStateM.bind x f c = _ ↔ _
  rw [EStateM.bind]
  cases x c with
  | error e c₁ =>
    constructor
    · rintro ⟨⟩
    · rintro ⟨_, _, ⟨⟩, _⟩
  | ok a c₁ =>
    constructor
    · intro h
      exact ⟨a, c₁, rfl, h⟩
    · rintro ⟨_, _, h, hf⟩
      cases h
      exact hf

theorem pure_eq_ok {b : α} : (pure b : Compile ρ α) c = .ok a c' ↔ b = a ∧ c = c' := by
  constructor
  · intro h
    injection h with hb hc
    exact ⟨hb, hc⟩
  · rintro ⟨rfl, rfl⟩
    rfl

theorem lift_eq_ok {x : Except Fault α} :
    (lift x : Compile ρ α) c = .ok a c' ↔ x = .ok a ∧ c = c' := by
  cases x with
  | error e =>
    constructor
    · rintro ⟨⟩
    · rintro ⟨⟨⟩, _⟩
  | ok b =>
    constructor
    · intro h
      cases h
      exact ⟨rfl, rfl⟩
    · rintro ⟨h, rfl⟩
      cases h
      rfl

theorem lift_bind (x : Except Fault α) (k : α → Except Fault β) :
    (lift (x >>= k) : Compile ρ β) = lift x >>= fun a => lift (k a) := by
  cases x <;> rfl

theorem lift_mapM (xs : List α) (k : α → Except Fault β) :
    (lift (xs.mapM k) : Compile ρ (List β)) = xs.mapM fun a => lift (k a) := by
  induction xs with
  | nil => rfl
  | cons a xs ih =>
    rw [List.mapM_cons, List.mapM_cons, lift_bind, ← ih]
    congr 1
    funext b
    rw [lift_bind]
    rfl

theorem visiting_eq_ok {d : Diagram ρ} {r : ρ} {x : Compile ρ α}
    (h : visiting d r x c = .ok a c') :
    ∃ c₁, x { c with active := r :: c.active } = .ok a c₁ ∧ c' = leave c₁ := by
  rw [visiting] at h
  split at h
  · cases h
  · split at h
    · rename_i hx
      cases h
      exact ⟨_, hx, rfl⟩
    · cases h

theorem drain_of_fresh (h : c.definitions.drained = false) :
    (drain : Compile ρ _) c =
      .ok c.definitions.entries { c with definitions.drained := true } := by
  have hd : c.definitions.drain =
      .ok (c.definitions.entries, { c.definitions with drained := true }) := by
    rw [Definitions.drain, h]
    rfl
  change EStateM.bind (lift c.definitions.drain) _ c = _
  rw [hd]
  rfl

theorem drain_of_drained (h : c.definitions.drained = true) :
    (drain : Compile ρ _) c = .error (.defect .alreadyDrained) c := by
  have hd : c.definitions.drain = .error (.defect .alreadyDrained) := by
    rw [Definitions.drain, if_pos h]
  change EStateM.bind (lift c.definitions.drain) _ c = _
  rw [hd]
  rfl

theorem drain_eq_ok {entries : Table String} (h : (drain : Compile ρ _) c = .ok entries c') :
    entries = c.definitions.entries ∧ c'.events = c.events := by
  cases hd : c.definitions.drained with
  | true =>
    rw [drain_of_drained hd] at h
    cases h
  | false =>
    rw [drain_of_fresh hd] at h
    cases h
    exact ⟨rfl, rfl⟩

end BlockMachine.Compile
