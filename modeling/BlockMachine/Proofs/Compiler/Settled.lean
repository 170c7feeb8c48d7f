import Mathlib.Data.List.Forall2
import BlockMachine.Block.Tree
import BlockMachine.Compiler.Statement

namespace BlockMachine

variable {ρ α β : Type}

namespace Compile

/-- The step gives `a` in every context and leaves the context as it is. -/
def Settles (x : Compile ρ α) (a : α) : Prop := ∀ c, x c = .ok a c

theorem Settles.pure (a : α) : Settles (pure a : Compile ρ α) a := fun _ => rfl

theorem Settles.bind {x : Compile ρ α} {f : α → Compile ρ β} {a : α} {b : β} (hx : x.Settles a)
    (hf : (f a).Settles b) : (x >>= f).Settles b := by
  intro c
  change EStateM.bind x f c = _
  rw [EStateM.bind, hx c]
  exact hf c

theorem Settles.visiting {d : Diagram ρ} {r : ρ} {x : Compile ρ α} {a : α}
    (hn : ∀ rs, d.seen r rs = false) (hx : x.Settles a) : (visiting d r x).Settles a := by
  intro c
  rw [Compile.visiting, hn, hx]
  rfl

/-- The step gives `a` wherever one is inside the blocks `rs`, and touches nothing. -/
def SettlesIn (rs : List ρ) (x : Compile ρ α) (a : α) : Prop := ∀ c, c.active = rs → x c = .ok a c

theorem Settles.settlesIn {x : Compile ρ α} {a : α} (h : x.Settles a) (rs : List ρ) :
    x.SettlesIn rs a :=
  fun c _ => h c

namespace SettlesIn

variable {d : Diagram ρ} {rs : List ρ} {r : ρ}

theorem bind {x : Compile ρ α} {f : α → Compile ρ β} {a : α} {b : β} (hx : x.SettlesIn rs a)
    (hf : (f a).SettlesIn rs b) : (x >>= f).SettlesIn rs b := by
  intro c hc
  change EStateM.bind x f c = _
  rw [EStateM.bind, hx c hc]
  exact hf c hc

theorem visiting {x : Compile ρ α} {a : α} (hn : d.seen r rs = false)
    (hx : x.SettlesIn (r :: rs) a) : (visiting d r x).SettlesIn rs a := by
  rintro c rfl
  rw [Compile.visiting, hn, hx _ rfl]
  rfl

theorem mapM {f : α → Compile ρ β} {as : List α} {bs : List β}
    (h : List.Forall₂ (fun a b => (f a).SettlesIn rs b) as bs) : (as.mapM f).SettlesIn rs bs := by
  induction h with
  | nil => exact (Settles.pure []).settlesIn rs
  | cons ha _ ih =>
    rw [List.mapM_cons]
    exact ha.bind (ih.bind ((Settles.pure _).settlesIn rs))

end SettlesIn
end Compile

theorem Tree.seen_diagram (ts : List Tree) (t : Tree) (us : List Tree) :
    (Tree.diagram ts).seen t us = false := by
  simp [Diagram.seen, Tree.diagram]

namespace Generator

section

variable (d : Diagram ρ) (depth : Nat) (r : ρ)

theorem diagram_ofDepth : (ofDepth d depth).diagram = d := by
  cases depth <;> rfl

theorem expression_succ :
    (ofDepth d (depth + 1)).expression r =
      (match ValueRule.ofKind? (d.block r).kind with
      | none => Compile.fail (.rule (.unknownKind .value (d.block r).site))
      | some rule => Compile.visiting d r do
        (ofDepth d depth).fill (d.block r) (← Compile.lift (rule.template (d.block r)))) :=
  rfl

theorem statement_succ :
    (ofDepth d (depth + 1)).statement r =
      (match StatementRule.ofKind? (d.block r).kind with
      | none => Compile.fail (.rule (.unknownKind .statement (d.block r).site))
      | some rule => Compile.visiting d r (rule.run (ofDepth d depth) (d.block r))) :=
  rfl

end

variable {g : Generator ρ} {b : Block ρ} {parts : List Part} {s : String}

theorem settles_value_none (context : Order) (default : String) :
    (g.value none context default).Settles ⟨default, .atomic⟩ :=
  .pure _

theorem settles_value_some {r : ρ} {e : Expression} (h : (g.expression r).Settles e)
    (context : Order) (default : String) :
    (g.value (some r) context default).Settles (e.within context) :=
  h.bind (.pure _)

theorem settles_expand_nil : (g.expand b []).Settles "" := .pure _

theorem settles_expand_text (text : String) (h : (g.expand b parts).Settles s) :
    (g.expand b (.text text :: parts)).Settles (text ++ s) :=
  h.bind (.pure _)

theorem settles_expand_slot {socket default : String} {context : Order} {e : Expression}
    (he : (g.value (b.value? socket) context default).Settles e)
    (h : (g.expand b parts).Settles s) :
    (g.expand b (.slot socket context default :: parts)).Settles (e.text ++ s) :=
  he.bind (h.bind (.pure _))

theorem settles_expression {ts : List Tree} {t : Tree} {n : Nat} {rule : ValueRule}
    {template : Template} (hk : ValueRule.ofKind? t.block.kind = some rule)
    (ht : rule.template t.block = .ok template) (hr : template.reserves = none)
    (h : ((ofDepth (Tree.diagram ts) n).expand t.block template.parts).Settles s) :
    ((ofDepth (Tree.diagram ts) (n + 1)).expression t).Settles ⟨s, template.order⟩ := by
  have hk : ValueRule.ofKind? ((Tree.diagram ts).block t).kind = some rule := hk
  have ht : rule.template ((Tree.diagram ts).block t) = .ok template := ht
  rw [expression_succ, hk]
  apply Compile.Settles.visiting (Tree.seen_diagram ts t)
  rw [ht]
  apply Compile.Settles.bind (.pure template)
  rw [fill, hr]
  exact h.bind (.pure _)

end Generator
end BlockMachine
