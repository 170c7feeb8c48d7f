import BlockMachine.Proofs.Compiler.Growth

namespace BlockMachine

open Compile (left)

/-- The second table has constants without a value behind the entries of the first, each under a key
of its own. -/
def Table.AddsUndefined (t u : Table String) : Prop :=
  ∃ new : Table String, u = t ++ new ∧ (keys new).Nodup ∧ (∀ key ∈ keys new, key ∉ keys t) ∧
    ∀ e ∈ new, e.2 = "const " ++ e.1 ++ " = undefined;"

namespace Table.AddsUndefined

variable {t u v : Table String}

theorem refl (t : Table String) : t.AddsUndefined t := by
  refine ⟨[], (List.append_nil t).symm, .nil, ?_, ?_⟩
  · intro key hk
    cases hk
  · intro e he
    cases he

theorem trans (h : t.AddsUndefined u) (h' : u.AddsUndefined v) : t.AddsUndefined v := by
  obtain ⟨new, rfl, hn, ho, ht⟩ := h
  obtain ⟨new', rfl, hn', ho', ht'⟩ := h'
  have hk : keys (t ++ new) = keys t ++ keys new := List.map_append
  have hnew : keys (new ++ new') = keys new ++ keys new' := List.map_append
  rw [hk] at ho'
  refine ⟨new ++ new', List.append_assoc _ _ _, ?_, ?_, List.forall_mem_append.2 ⟨ht, ht'⟩⟩
  · rw [hnew, List.nodup_append]
    refine ⟨hn, hn', ?_⟩
    rintro key hm _ hm' rfl
    exact ho' key hm' (List.mem_append_right _ hm)
  · rw [hnew]
    refine List.forall_mem_append.2 ⟨ho, ?_⟩
    intro key hm' hm
    exact ho' key hm' (List.mem_append_left _ hm)

theorem reserve (t : Table String) (key : String) :
    t.AddsUndefined (Table.reserve t key ("const " ++ key ++ " = undefined;")) := by
  rw [Table.reserve, Table.contains]
  split
  · exact refl t
  · rename_i hm
    have hm : key ∉ keys t := mt List.contains_iff_mem.2 hm
    refine ⟨_, rfl, List.nodup_singleton key, ?_, List.forall_mem_singleton.2 rfl⟩
    exact List.forall_mem_singleton.2 hm

end Table.AddsUndefined

/-- Every slot of the first table has its key in the second one too, with the same text or with one
that is allowed under the key. -/
def Table.Retains (A : String → String → Prop) (t u : Table String) : Prop :=
  ∀ (i : Nat) (e : String × String), t[i]? = some e →
    ∃ text, u[i]? = some (e.1, text) ∧ (text = e.2 ∨ A e.1 text)

namespace Table.Retains

variable {A : String → String → Prop} {t u v : Table String}

theorem refl (A : String → String → Prop) (t : Table String) : t.Retains A t := by
  intro i e he
  exact ⟨e.2, he, .inl rfl⟩

theorem trans (h : t.Retains A u) (h' : u.Retains A v) : t.Retains A v := by
  intro i e he
  obtain ⟨text, hu, ht⟩ := h i e he
  obtain ⟨text', hv, ht'⟩ := h' i _ hu
  refine ⟨text', hv, ?_⟩
  rcases ht' with rfl | ht'
  · exact ht
  · exact .inr ht'

theorem append (A : String → String → Prop) (t u : Table String) : t.Retains A (t ++ u) := by
  intro i e he
  obtain ⟨hi, -⟩ := List.getElem?_eq_some_iff.1 he
  refine ⟨e.2, ?_, .inl rfl⟩
  rw [List.getElem?_append_left hi]
  exact he

theorem cons (h : t.Retains A u) (e : String × String) : Table.Retains A (e :: t) (e :: u) := by
  intro i f hf
  cases i with
  | zero => exact ⟨f.2, hf, .inl rfl⟩
  | succ i => exact h i f hf

theorem put {key text : String} (h : A key text) (t : Table String) :
    t.Retains A (Table.put t key text) := by
  induction t with
  | nil => exact append A [] _
  | cons e t ih =>
    obtain ⟨k, s⟩ := e
    rw [Table.put]
    split
    · rename_i hk
      subst hk
      intro i e he
      cases i with
      | zero =>
        cases he
        exact ⟨text, rfl, .inr h⟩
      | succ i => exact ⟨e.2, he, .inl rfl⟩
    · exact ih.cons (k, s)

theorem reserve (A : String → String → Prop) (t : Table String) (key text : String) :
    t.Retains A (Table.reserve t key text) := by
  rw [Table.reserve]
  split
  · exact refl A t
  · exact append A t _

theorem keys_prefix (h : t.Retains A u) : keys t <+: keys u := by
  rw [List.prefix_iff_getElem?]
  intro i hi
  have hl : i < t.length := by simpa [keys] using hi
  obtain ⟨text, hu, -⟩ := h i t[i] (List.getElem?_eq_getElem hl)
  simp only [keys, List.getElem?_map, List.getElem_map, hu, Option.map_some]

end Table.Retains

namespace Definitions.Becomes

variable {d d' : Definitions}

theorem addsUndefined (h : d.Becomes Deed.IsUse d') : d.entries.AddsUndefined d'.entries := by
  obtain ⟨ds, hds, rfl⟩ := h
  induction ds generalizing d with
  | nil => exact .refl _
  | cons deed ds ih =>
    obtain ⟨hd, hds⟩ := List.forall_mem_cons.1 hds
    refine Table.AddsUndefined.trans ?_ (ih hds)
    cases hd with
    | mk name => exact .reserve _ _

theorem retains {D : Deed → Prop} {A : String → String → Prop} (h : d.Becomes D d')
    (hA : ∀ name text, D (.register name text) → A (identifier name) text) :
    d.entries.Retains A d'.entries := by
  obtain ⟨ds, hds, rfl⟩ := h
  induction ds generalizing d with
  | nil => exact .refl A _
  | cons deed ds ih =>
    obtain ⟨hd, hds⟩ := List.forall_mem_cons.1 hds
    refine Table.Retains.trans ?_ (ih hds)
    cases deed with
    | reserve name text => exact .reserve A _ _ _
    | register name text => exact .put (hA name text hd) _

end Definitions.Becomes

variable {ρ α β : Type}

namespace Compile

/-- The definitions that a run leaves, whether it succeeds or fails. -/
def entriesAfter (x : Compile ρ α) (c : Context ρ) : Table String :=
  (left (x c)).definitions.entries

theorem entriesAfter_map (x : Compile ρ α) (f : α → β) (c : Context ρ) :
    (x >>= fun a => pure (f a)).entriesAfter c = x.entriesAfter c := by
  rw [entriesAfter, map_apply, left_ending]
  rfl

end Compile

namespace Diagram

/-- Statement `r`, or one in its stacks, defines the key by the text. -/
def DefinesIn (d : Diagram ρ) (r : ρ) (key text : String) : Prop :=
  ∃ q name, d.Encloses r q ∧ (d.block q).Defines name text ∧ identifier name = key

/-- One of the statements of a stack does so. -/
def DefinesBelow (d : Diagram ρ) (top : Option ρ) (key text : String) : Prop :=
  ∃ rs, d.stack top = .ok rs ∧ ∃ r ∈ rs, d.DefinesIn r key text

variable {d : Diagram ρ}

theorem HoistsIn.definesIn {r : ρ} {name text : String} (h : d.HoistsIn r (.register name text)) :
    d.DefinesIn r (identifier name) text := by
  cases h with
  | use hu => cases hu
  | define he hd => exact ⟨_, name, he, hd, rfl⟩

theorem retains_statement (d : Diagram ρ) (r : ρ) (c : Context ρ) :
    c.definitions.entries.Retains (d.DefinesIn r) ((d.generator.statement r).entriesAfter c) := by
  have hg := (Generator.growing_ofDepth d (d.bound + 1)).statement r c
  rw [Generator.diagram_ofDepth] at hg
  exact hg.definitions.retains fun name text hd => hd.definesIn

theorem retains_fragments (d : Diagram ρ) (top : Option ρ) (c : Context ρ) :
    c.definitions.entries.Retains (d.DefinesBelow top)
      ((d.generator.fragments top).entriesAfter c) := by
  have hg := Generator.growing_ofDepth d (d.bound + 1)
  have hd := Generator.diagram_ofDepth d (d.bound + 1)
  have hf : (d.generator.fragments top).Grows
      fun deed => ∃ rs, d.stack top = .ok rs ∧ ∃ r ∈ rs, d.HoistsIn r deed := by
    apply Generator.Growing.fragments
    intro rs hs r hr
    have hr' := hg.statement r
    rw [hd] at hr'
    change (Generator.ofDepth d (d.bound + 1)).diagram.stack top = .ok rs at hs
    rw [hd] at hs
    exact hr'.mono fun deed h => ⟨rs, hs, r, hr, h⟩
  apply (hf c).definitions.retains
  rintro name text ⟨rs, hs, r, hr, h⟩
  exact ⟨rs, hs, r, hr, h.definesIn⟩

/-- Compiling a value adds constants without a value at the end of the table, under keys that are
not there, and changes nothing else of it. Compiling statements keeps all keys in their slots, and
leaves another text in one of them only where one of the statements, or one in their stacks, defines
its key by that text. Neither depends on how the compilation ends. -/
theorem definitions_kept (d : Diagram ρ) (c : Context ρ) :
    (∀ r, c.definitions.entries.AddsUndefined ((d.generator.expression r).entriesAfter c)) ∧
    (∀ r, Table.keys c.definitions.entries <+:
        Table.keys ((d.generator.statement r).entriesAfter c) ∧
      c.definitions.entries.Retains (d.DefinesIn r) ((d.generator.statement r).entriesAfter c)) ∧
    ∀ top, Table.keys c.definitions.entries <+:
        Table.keys ((d.generator.fragments top).entriesAfter c) ∧
      c.definitions.entries.Retains (d.DefinesBelow top)
        ((d.generator.fragments top).entriesAfter c) ∧
      (d.generator.sequence top).entriesAfter c = (d.generator.fragments top).entriesAfter c ∧
      (d.generator.records top).entriesAfter c = (d.generator.fragments top).entriesAfter c := by
  refine ⟨fun r => ?_, fun r => ?_, fun top => ?_⟩
  · have hg := (Generator.growing_ofDepth d (d.bound + 1)).expression r c
    exact hg.definitions.addsUndefined
  · have hr := d.retains_statement r c
    exact ⟨hr.keys_prefix, hr⟩
  · have ht := d.retains_fragments top c
    exact ⟨ht.keys_prefix, ht, Compile.entriesAfter_map _ _ c, Compile.entriesAfter_map _ _ c⟩

end Diagram
end BlockMachine
