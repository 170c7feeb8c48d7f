import BlockMachine.Proofs.Workspace.Rejection

namespace BlockMachine.Workspace

/-- What is wrong with a saved block. -/
inductive Blames (members : Table Json) : FormatFault → Prop
  | inputs {j : Json} : Table.get? members "inputs" = some j → j.isTruthy = true →
    (∀ es, j ≠ .obj es) →
    Blames members (.malformedInputs (member members "id") (member members "type"))
  | socket {es : Table Json} {e : String × Json} :
    Table.get? members "inputs" = some (.obj es) → e ∈ es → (∀ ms, e.2 ≠ .obj ms) →
    Blames members (.malformedConnection (member members "id") (member members "type"))
  | next {c : Json} : Table.get? members "next" = some c → c.isTruthy = true →
    (∀ ms, c ≠ .obj ms) →
    Blames members (.malformedConnection (member members "id") (member members "type"))
  | label {shadow : Bool} : label? members shadow = none →
    Blames members (.malformedBlock (member members "id") (member members "type"))

/-- A fault is about something that stands where a block should, or about a block in the
document. -/
inductive Blamed (document : Json) : FormatFault → Prop
  | untyped {raw : Json} : raw.Inside document → Blamed document (.untypedBlock raw)
  | block {members : Table Json} {f : FormatFault} :
    (Json.obj members).Inside document → Blames members f → Blamed document f

variable {f : FormatFault}

theorem Blamed.of_inside {j k : Json} (h : Blamed j f) (hjk : j.Inside k) : Blamed k f := by
  cases h with
  | untyped hr => exact .untyped (hr.trans hjk)
  | block hm hb => exact .block (hm.trans hjk) hb

theorem connection_eq_error {id kind c : Json} (h : connection id kind c = .error (.format f)) :
    f = .malformedConnection id kind ∧ ∀ ms, c ≠ .obj ms := by
  cases c <;> cases h <;> exact ⟨rfl, nofun⟩

theorem blames_of_inputs {members : Table Json} (h : inputs members = .error (.format f)) :
    Blames members f := by
  rw [inputs] at h
  split at h
  · cases h
  · cases h
  · rename_i j ho hj
    split at h
    · rename_i ht
      cases h
      exact .inputs hj ht ho
    · cases h

theorem blames_of_label {members : Table Json} {shadow : Bool}
    (h : label members shadow = .error (.format f)) : Blames members f := by
  rw [label] at h
  split at h
  · cases h
  · rename_i hl
    cases h
    exact .label hl

theorem blames_of_below {members : Table Json} {shadow : Bool} {l : Label}
    (hl : label members shadow = .ok l) (h : below l members = .error (.format f)) :
    Blames members f := by
  rw [below] at h
  split at h
  · cases h
  · rename_i c hc
    split at h
    · rename_i ht
      obtain ⟨rfl, ho⟩ := connection_eq_error (map_eq_error.1 h)
      rw [← (label_eq_ok hl).2.1, ← (label_eq_ok hl).1]
      exact .next hc ht ho
    · cases h

theorem blamed : CoversFailures (fun raw _ f => ∀ g, f = .format g → Blamed raw g)
    (fun id kind entries f => ∀ g, f = .format g →
      ∃ e ∈ entries, (g = .malformedConnection id kind ∧ ∀ ms, e.2 ≠ .obj ms) ∨ Blamed e.2 g) where
  untyped raw _ := by
    rintro _ ⟨⟩
    exact .untyped .refl
  ofInputs h := by
    rintro g rfl
    exact .block .refl (blames_of_inputs h)
  ofSockets {members es _ _ kind f} hk hi h := by
    intro g hg
    have hkind : kind = member members "type" := by
      rw [member, hk]
      rfl
    obtain ⟨e, he, hb⟩ := h g hg
    rcases inputs_cases hi with rfl | hes
    · cases he
    rcases hb with ⟨rfl, ho⟩ | hb
    · exact .block .refl (hkind ▸ .socket hes he ho)
    · exact hb.of_inside ((Json.Inside.member he .refl).trans (Json.inside_of_get? hes))
  ofLabel h := by
    rintro g rfl
    exact .block .refl (blames_of_label h)
  ofBelow hl h := by
    rintro g rfl
    exact .block .refl (blames_of_below hl h)
  next _ _ _ _ hp h := by
    intro g hg
    exact (h g hg).of_inside (inside_of_below hp)
  ofConnection h := by
    rintro g rfl
    exact ⟨_, List.mem_cons_self, .inl (connection_eq_error h)⟩
  plugged hp h := by
    intro g hg
    exact ⟨_, List.mem_cons_self, .inr ((h g hg).of_inside (inside_of_connection hp))⟩
  ofKind _ _ h := by
    rintro g rfl
    obtain ⟨⟨⟩, -⟩ := isStatementSocket_eq_error.1 h
  later _ _ _ h := by
    intro g hg
    obtain ⟨e, he, hb⟩ := h g hg
    exact ⟨e, List.mem_cons_of_mem _ he, hb⟩

theorem blamed_blocks {raws : List Json} (h : readBlocks raws = .error (.format f)) :
    ∃ raw ∈ raws, Blamed raw f := by
  induction raws with
  | nil => cases h
  | cons raw raws ih =>
    rcases bind_eq_error.1 h with h | ⟨t, ht, h⟩
    · exact ⟨raw, List.mem_cons_self, blamed.of_tree h f rfl⟩
    rcases bind_eq_error.1 h with h | ⟨_, _, h⟩
    · obtain ⟨raw', hm, hb⟩ := ih h
      exact ⟨raw', List.mem_cons_of_mem _ hm, hb⟩
    · cases h

/-- The frame of a document around its blocks is not as it should be. -/
def IsFrameFault (f : FormatFault) : Prop :=
  f = .notAnObject ∨ f = .sectionNotAnObject ∨ f = .blocksNotAList

theorem blamed_document {document : Json} (h : read document = .error (.format f)) :
    IsFrameFault f ∨ Blamed document f := by
  rw [read.eq_def] at h
  split at h
  · rename_i members
    split at h
    · rename_i inner hinner
      split at h
      · rename_i raws hraws
        obtain ⟨raw, hm, hb⟩ := blamed_blocks (map_eq_error.1 h)
        exact .inr (hb.of_inside (inside_of_sections hinner hraws hm))
      · cases h
        exact .inl (.inr (.inr rfl))
    · cases h
      exact .inl (.inr (.inl rfl))
  · cases h
    exact .inl (.inl rfl)

end BlockMachine.Workspace
