import BlockMachine.Proofs.Compiler.Passage
import BlockMachine.Proofs.Compiler.Release
import BlockMachine.Proofs.Compiler.Termination
import BlockMachine.Proofs.Machine.Records

namespace BlockMachine

variable {ρ α β γ : Type}

namespace Compile

theorem visiting_map (d : Diagram ρ) (r : ρ) (x : Compile ρ α) (f : α → β) (c : Context ρ) :
    visiting d r (x >>= fun a => pure (f a)) c = ending f (visiting d r x c) := by
  rw [visiting, visiting]
  split
  · rfl
  · rw [map_apply]
    cases x { c with active := r :: c.active } <;> rfl

theorem mapM_ending {x : α → Compile ρ β} {y : α → Compile ρ γ} {f : γ → β} {as : List α}
    {rs : List ρ} (hy : ∀ a c, (left (y a c)).active = c.active)
    (h : ∀ a ∈ as, ∀ c, c.active = rs → x a c = ending f (y a c)) {c : Context ρ}
    (hc : c.active = rs) : as.mapM x c = ending (List.map f) (as.mapM y c) := by
  induction as generalizing c with
  | nil => rfl
  | cons a as ih =>
    obtain ⟨ha, has⟩ := List.forall_mem_cons.1 h
    rw [List.mapM_cons, List.mapM_cons]
    change EStateM.bind (x a) _ c = ending _ (EStateM.bind (y a) _ c)
    rw [EStateM.bind, EStateM.bind, ha c hc]
    cases hyc : y a c with
    | error e c₁ => rfl
    | ok b c₁ =>
      have hl : c₁.active = c.active := by
        have hl := hy a c
        rw [hyc] at hl
        exact hl
      change (as.mapM x >>= fun bs => pure (f b :: bs)) c₁ =
        ending _ ((as.mapM y >>= fun bs => pure (b :: bs)) c₁)
      rw [map_apply, map_apply, ih has (hl.trans hc)]
      cases as.mapM y c₁ <;> rfl

theorem ending_ending {δ : Type} (f : β → δ) (g : α → β)
    (u : EStateM.Result Fault (Context ρ) α) :
    ending f (ending g u) = ending (fun a => f (g a)) u := by
  cases u <;> rfl

end Compile

theorem Diagram.ne_nil_of_stack {d : Diagram ρ} {r : ρ} {rs : List ρ}
    (h : d.stack (some r) = .ok rs) : rs ≠ [] := by
  rw [stack, stackFrom] at h
  split at h
  · cases h
  · obtain ⟨rest, -, rfl⟩ := map_eq_ok.1 h
    exact List.cons_ne_nil r rest

theorem Generator.length_collect {g : Generator ρ} {top : Option ρ} {build : Block ρ → Compile ρ α}
    {c c' : Context ρ} {as : List α} (h : g.collect top build c = .ok as c') :
    ∃ rs, g.diagram.stack top = .ok rs ∧ as.length = rs.length := by
  obtain ⟨rs, _, hs, h⟩ := Compile.bind_eq_ok.1 h
  obtain ⟨hs, -⟩ := Compile.lift_eq_ok.1 hs
  obtain ⟨qs, -, -, rfl, rfl⟩ := Compile.mapM_eq_ok h
  exact ⟨_, hs, by rw [List.length_map, List.length_map]⟩

namespace Sketch

variable {s : Sketch} {rs : List (Fin s.size)} {k k' : Nat}

theorem run_of_ample (e : Entry (Fin s.size) α) (h : s.Ample k rs) (h' : s.Ample k' rs)
    {c : Context (Fin s.size)} (hc : c.active = rs) :
    e.run (.ofDepth s.diagram k) c = e.run (.ofDepth s.diagram k') c := by
  have hb := Nat.le_refl s.size
  have heq {j : Nat} (hj : s.Ample j rs) :=
    (eq_of_ends (runs_entry hb (.defect .tooDeep) e h hj c c
      ⟨rfl, ⟨hc, hc.trans (List.map_id rs).symm⟩, List.forall₂_eq_eq_eq ▸ rfl⟩)).1
  exact (heq h).symm.trans (heq h')

theorem statement_transition {r : Fin s.size}
    (hk : (s.block r).kind = Catalog.localTransitionKind) (h : s.Ample (k + 1) rs)
    {c : Context (Fin s.size)} (hc : c.active = rs) :
    (Generator.ofDepth s.diagram (k + 1)).statement r c =
      Compile.ending (fun t : Transition => t.script ++ ",\n")
        (Compile.visiting s.diagram r
          ((Generator.ofDepth s.diagram (k + 1)).localTransition (s.block r)) c) := by
  have hrule : StatementRule.ofKind? (s.diagram.block r).kind = some .transition := by
    change StatementRule.ofKind? (s.block r).kind = _
    rw [hk]
    rfl
  rw [Generator.statement_succ, hrule]
  change Compile.visiting s.diagram r ((Generator.ofDepth s.diagram k).localTransition (s.block r)
    >>= fun t => pure (t.script ++ ",\n")) c = _
  rw [Compile.visiting_map, Compile.visiting, Compile.visiting]
  cases hn : s.diagram.seen r c.active with
  | true => rfl
  | false =>
    -- Inside the block there is one level less on the one side, and still enough of them.
    have hi : s.Ample k (r :: rs) := h.inside (hc ▸ hn)
    have he : (Generator.ofDepth s.diagram k).localTransition (s.block r)
          { c with active := r :: c.active } =
        (Generator.ofDepth s.diagram (k + 1)).localTransition (s.block r)
          { c with active := r :: c.active } :=
      run_of_ample (.localTransition (s.block r)) hi hi.succ (congrArg _ hc)
    rw [he]

theorem fragments_transitions {top : Option (Fin s.size)} {c : Context (Fin s.size)}
    (hc : c.active.Nodup) (hk : ∀ us, s.diagram.stack top = .ok us → ∀ u ∈ us,
      (s.block u).kind = Catalog.localTransitionKind) :
    s.diagram.generator.fragments top c =
      Compile.ending (List.map fun t : Transition => t.script ++ ",\n")
        (s.diagram.generator.collect top s.diagram.generator.localTransition c) := by
  have ha : s.Ample (s.size + 1) c.active := .start (Nat.le_refl s.size) hc
  have hg := Generator.growing_ofDepth s.diagram (s.size + 1)
  have hactive (u : Fin s.size) (c : Context (Fin s.size)) :
      (Compile.left (Compile.visiting s.diagram u
        (s.diagram.generator.localTransition (s.block u)) c)).active = c.active :=
    ((hg.localTransition (fun _ => id) (s.block u)).visiting c).active
  change (Compile.lift (s.diagram.stack top) >>= fun us =>
      us.mapM s.diagram.generator.statement) c = Compile.ending _
    ((Compile.lift (s.diagram.stack top) >>= fun us => us.mapM fun u =>
      Compile.visiting s.diagram u (s.diagram.generator.localTransition (s.block u))) c)
  cases hs : s.diagram.stack top with
  | error f => rfl
  | ok us =>
    apply Compile.mapM_ending hactive _ rfl
    intro u hu c' hc'
    exact statement_transition (hk us hs u hu) ha hc'

/-- A stack of transitions is compiled to a text just as it is collected: both fail with the same
fault, or the text is that of the records, one after the other with a separator between each two,
and it fills the array of the records. Either way both leave the same context. -/
theorem transitions_agree (s : Sketch) (r : Fin s.size) (c : Context (Fin s.size))
    (hc : c.active.Nodup)
    (hk : ∀ us, s.diagram.stack ((s.block r).head? "TRANSITIONS") = .ok us → ∀ u ∈ us,
      (s.block u).kind = Catalog.localTransitionKind) :
    let g := s.diagram.generator
    let top := (s.block r).head? "TRANSITIONS"
    (∃ f c', g.collect top g.localTransition c = .error f c' ∧ g.records top c = .error f c') ∨
    ∃ ts c', g.collect top g.localTransition c = .ok ts c' ∧
      g.records top c = .ok (Fragment.joinRecords (ts.map Transition.script)) c' ∧
      Fragment.joinRecords (ts.map Transition.script) =
        ",\n".intercalate (ts.map Transition.script) ∧
      (top ≠ none → Script.array (ts.map Transition.script) =
        "[\n" ++ indented (Fragment.joinRecords (ts.map Transition.script)) ++ "\n]") := by
  intro g top
  have hr : g.records top c = Compile.ending
      (fun ts : List Transition => Fragment.joinRecords (ts.map Transition.script))
      (g.collect top g.localTransition c) := by
    rw [Generator.records, Compile.map_apply, fragments_transitions hc hk, Compile.ending_ending]
    simp only [Transition.joinRecords_script_commas]
    rfl
  cases hb : g.collect top g.localTransition c with
  | error f c' =>
    rw [hb] at hr
    exact .inl ⟨f, c', rfl, hr⟩
  | ok ts c' =>
    rw [hb] at hr
    refine .inr ⟨ts, c', rfl, hr, Transition.joinRecords_script ts, fun ht => ?_⟩
    apply Transition.array_script
    rintro rfl
    obtain ⟨us, hs, hl⟩ := Generator.length_collect hb
    obtain ⟨u, hu⟩ := Option.ne_none_iff_exists'.1 ht
    rw [hu] at hs
    exact Diagram.ne_nil_of_stack hs (List.length_eq_zero_iff.1 hl.symm)

/-- A state with three transitions. The first waits until a constant is false, the last until it is
true. -/
def waiting : Sketch where
  size := 6
  block
    | 0 => { kind := "fsm_state", statements := [("TRANSITIONS", some 1)] }
    | 1 => { kind := "fsm_transition", fields := [("TARGET", .text "a, ")],
             values := [("CONDITION", some 4)], next := some 2 }
    | 2 => { kind := "fsm_transition", fields := [("TARGET", .text "b")], next := some 3 }
    | 3 => { kind := "fsm_transition", fields := [("TARGET", .text "a, ")],
             values := [("CONDITION", some 5)] }
    | 4 => { kind := "logic_negate", values := [("BOOL", some 5)] }
    | 5 => { kind := "custom_constant_get", fields := [("NAME", .text "x,")] }

theorem waiting_agrees :
    let g := waiting.diagram.generator
    let c : Context (Fin waiting.size) := { active := [(0 : Fin 6)] }
    let c' : Context (Fin waiting.size) :=
      ⟨{ entries := [("x_", "const x_ = undefined;")] }, [(0 : Fin 6)], []⟩
    let ts : List Transition := [⟨"a, ", ⟨"(!x_)", .atomic⟩, "", .ofState⟩,
      ⟨"b", ⟨"false", .atomic⟩, "", .ofState⟩, ⟨"a, ", ⟨"x_", .atomic⟩, "", .ofState⟩]
    c.active.Nodup ∧ g.collect (some (1 : Fin 6)) g.localTransition c = .ok ts c' ∧
      g.records (some (1 : Fin 6)) c = .ok (",\n".intercalate (ts.map Transition.script)) c' := by
  intro g c c' ts
  have hc : c.active.Nodup := List.nodup_singleton _
  have hb : g.collect (some (1 : Fin 6)) g.localTransition c = .ok ts c' := by rfl
  have hk : ∀ us, waiting.diagram.stack ((waiting.block (0 : Fin 6)).head? "TRANSITIONS") =
      .ok us → ∀ u ∈ us, (waiting.block u).kind = Catalog.localTransitionKind := by
    rintro us ⟨⟩
    decide
  refine ⟨hc, hb, ?_⟩
  rcases transitions_agree waiting (0 : Fin 6) c hc hk with ⟨_, _, hf, -⟩ | ⟨_, _, ho, hr, hj, -⟩
  · cases hb.symm.trans hf
  · cases hb.symm.trans ho
    rw [← hj]
    exact hr

end Sketch
end BlockMachine
