import BlockMachine.Proofs.Compiler.Recording

namespace BlockMachine

namespace Tree

/-- The tree in a socket, as it stands in a context of the given order. -/
def valueAt (t : Tree) (socket : String) (context : Order) (default : String) :
    Except Fault Expression :=
  match t.block.value? socket with
  | none => .ok ⟨default, .atomic⟩
  | some u => do return (← u.expression).within context

def expanded (t : Tree) : List Part → Except Fault String
  | [] => .ok ""
  | .text s :: parts => do return s ++ (← t.expanded parts)
  | .slot socket context default :: parts => do
    let e ← t.valueAt socket context default
    return e.text ++ (← t.expanded parts)
  | .fail f :: _ => .error f

variable {t : Tree} {parts : List Part} {socket text s default : String} {context : Order}

theorem expanded_text (h : t.expanded (.text s :: parts) = .ok text) :
    ∃ rest, t.expanded parts = .ok rest ∧ text = s ++ rest := by
  obtain ⟨rest, hr, he⟩ := bind_eq_ok.1 h
  exact ⟨rest, hr, (Except.ok.inj he).symm⟩

theorem expanded_slot (h : t.expanded (.slot socket context default :: parts) = .ok text) :
    ∃ e rest, t.valueAt socket context default = .ok e ∧ t.expanded parts = .ok rest ∧
      text = e.text ++ rest := by
  obtain ⟨e, he, h⟩ := bind_eq_ok.1 h
  obtain ⟨rest, hr, h⟩ := bind_eq_ok.1 h
  exact ⟨e, rest, he, hr, (Except.ok.inj h).symm⟩

theorem expression_of_slot (h : t.expanded parts = .ok text) {u : Tree}
    (hs : socket ∈ slots parts) (hu : t.block.value? socket = some u) :
    ∃ x, u.expression = .ok x := by
  induction parts generalizing text with
  | nil => cases hs
  | cons part parts ih =>
    cases part with
    | text s =>
      obtain ⟨rest, hr, -⟩ := expanded_text h
      exact ih hr hs
    | slot name context default =>
      obtain ⟨e, rest, he, hr, -⟩ := expanded_slot h
      rcases List.mem_cons.1 hs with rfl | hs
      · rw [Tree.valueAt, hu] at he
        obtain ⟨x, hx, -⟩ := bind_eq_ok.1 he
        exact ⟨x, hx⟩
      · exact ih hr hs
    | fail f => cases h

theorem expanded_atom (h : t.expanded [.text s] = .ok text) : text = s := by
  obtain ⟨_, h₁, rfl⟩ := expanded_text h
  cases h₁
  exact String.append_empty

end Tree

namespace Recorder

variable {ts : List Tree} {n : Nat} {g : Generator Tree} {t : Tree}

theorem result_value (h : Recorder ts n g) (hb : Contract.Held (Room ts n) t.block)
    (socket : String) (context : Order) (default : String) :
    (g.value (t.block.value? socket) context default).start.result =
      t.valueAt socket context default := by
  rw [Tree.valueAt]
  cases hc : t.block.value? socket with
  | none => rfl
  | some u =>
    have hu := hb.value? hc
    change (g.expression u >>= fun e => pure (e.within context)).start.result = _
    rw [(h.expression hu).start_bind fun _ _ => .pure _, h.result hu]
    rfl

theorem result_expand (h : Recorder ts n g) (hb : Contract.Held (Room ts n) t.block)
    (parts : List Part) : (g.expand t.block parts).start.result = t.expanded parts := by
  induction parts with
  | nil => rfl
  | cons part parts ih =>
    have he := h.expand hb parts
    cases part with
    | text s =>
      change (g.expand t.block parts >>= fun rest => pure (s ++ rest)).start.result = _
      rw [he.start_bind fun _ _ => .pure _, ih]
      rfl
    | slot socket context default =>
      change (g.value (t.block.value? socket) context default >>= fun e =>
        g.expand t.block parts >>= fun rest => pure (e.text ++ rest)).start.result = _
      rw [(h.value hb socket context default).start_bind fun _ _ => he.map _,
        h.result_value hb, Tree.expanded]
      congr 1
      funext e
      rw [he.start_bind fun _ _ => .pure _, ih]
      rfl
    | fail f => rfl

theorem result_fill (h : Recorder ts n g) (hb : Contract.Held (Room ts n) t.block)
    (template : Template) :
    (g.fill t.block template).start.result =
      (t.expanded template.parts).map fun text => ⟨text, template.order⟩ := by
  have hx : (g.expand t.block template.parts >>= fun text =>
      pure (⟨text, template.order⟩ : Expression)).start.result =
      (t.expanded template.parts).map fun text => ⟨text, template.order⟩ := by
    rw [(h.expand hb _).start_bind fun _ _ => .pure _, h.result_expand hb]
    cases t.expanded template.parts <;> rfl
  rw [Generator.fill]
  cases template.reserves with
  | none => exact hx
  | some entry =>
    rw [← hx]
    exact (Compile.Does.reserve _ _).start_bind fun _ _ => (h.expand hb _).map _

end Recorder

/-- A tree that has an expression has a rule, and the expression is the template of the rule, filled
with the trees in its sockets. -/
theorem Tree.expression_eq_ok {t : Tree} {e : Expression} (h : t.expression = .ok e) :
    ∃ rule template, ValueRule.ofKind? t.block.kind = some rule ∧
      rule.template t.block = .ok template ∧ t.expanded template.parts = .ok e.text ∧
        e.order = template.order := by
  have hr := Room.generator (List.mem_singleton_self t)
  have hg := Recorder.ofDepth [t] (diagram [t]).bound
  rw [← hr.result_expression, Generator.expression_succ, block_diagram] at h
  cases hk : ValueRule.ofKind? t.block.kind with
  | none =>
    rw [hk] at h
    cases h
  | some rule =>
    rw [hk] at h
    dsimp only at h
    rw [(hg.fill_template hr.held hk).start_visiting, (Compile.Does.lift _).start_bind fun _ ht =>
      hg.fill_of_rule hr.held hk ((Compile.start_lift _).symm.trans ht), Compile.start_lift] at h
    cases ht : rule.template t.block with
    | error f =>
      rw [ht] at h
      cases h
    | ok template =>
      rw [ht] at h
      change (Generator.fill _ t.block template).start.result = _ at h
      rw [hg.result_fill hr.held] at h
      obtain ⟨text, hx, rfl⟩ := map_eq_ok.1 h
      exact ⟨rule, template, rfl, ht, hx, rfl⟩

end BlockMachine
