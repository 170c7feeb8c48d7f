import BlockMachine.Proofs.Block.Sketch
import BlockMachine.Proofs.Compiler.Coupling

namespace BlockMachine

variable {ρ α : Type}

/-- Where a compilation can begin. What is collected from a stack is itself built by operations of
the compiler. -/
inductive Entry (ρ : Type) : Type → Type 1
  | expression (r : ρ) : Entry ρ Expression
  | statement (r : ρ) : Entry ρ String
  | value (child : Option ρ) (context : Order) (default : String) : Entry ρ Expression
  | sequence (top : Option ρ) : Entry ρ String
  | records (top : Option ρ) : Entry ρ String
  | localTransition (b : Block ρ) : Entry ρ Transition
  | collect {α : Type} (top : Option ρ) (build : Block ρ → Entry ρ α) : Entry ρ (List α)
  | state (b : Block ρ) : Entry ρ State
  | program (root : ρ) (beside : List ρ) : Entry ρ Program

namespace Entry

def watched (w : Watch ρ) (g : Generator ρ) {α : Type} : Entry ρ α → Compile ρ α
  | expression r => g.expression r
  | statement r => g.statement r
  | value child context default => g.value child context default
  | sequence top => g.sequence top
  | records top => g.records top
  | localTransition b => g.localTransition b
  | collect top build => w.collect g top fun b => (build b).watched w g
  | state b => w.state g b
  | program root beside => w.program g root beside

def run (g : Generator ρ) {α : Type} (e : Entry ρ α) : Compile ρ α := e.watched .idle g

end Entry

namespace Sketch

variable {s : Sketch} {rs : List (Fin s.size)} {k k' : Nat}

/-- Blocks inside each other have to be different blocks, and no more than there are. -/
def watch (s : Sketch) (alarm : Fault) : Watch (Fin s.size) where
  allows rs := decide (rs.Nodup ∧ rs.length ≤ s.size)
  alarm := alarm

variable (s) in
/-- The sketch with a larger bound under the watch, and as it is. -/
def coupling {bound : Nat} (hb : s.size ≤ bound) (alarm : Fault) :
    Coupling (Fin s.size) (Fin s.size) where
  left := s.within bound
  right := s.diagram
  watch := s.watch alarm
  image := id
  valid k k' rs _ := s.Ample k rs ∧ s.Ample k' rs
  block r := (Block.map_id _).symm
  positive h := ⟨h.1.pos, h.2.pos⟩
  succ h := ⟨h.1.succ, h.2.succ⟩
  beside h _ := h
  inside h hn _ := ⟨h.1.inside hn, h.2.inside hn⟩
  allows h hn := by
    have hd := (h.1.succ.inside hn).nodup
    exact decide_eq_true ⟨hd, length_le hd⟩
  seen _ := by
    rw [List.map_id]
    rfl
  stack _ := by
    rw [(stack_within hb _).1, List.map_id_fun, id]
    exact congrFun Except.map_id.symm _
  shallow _ := by
    rw [(stack_within hb _).1]
    exact (stack_within hb _).2

section

variable {bound : Nat} (hb : s.size ≤ bound) (alarm : Fault)

theorem rel_self (h : s.Ample k rs) (h' : s.Ample k' rs) (child : Option (Fin s.size)) :
    Option.Rel ((s.coupling hb alarm).matching k k' rs).refs child child := by
  cases child with
  | none => exact .none
  | some u => exact .some ⟨rfl, h, h'⟩

theorem blocks_self (h : s.Ample k rs) (h' : s.Ample k' rs) (b : Block (Fin s.size)) :
    ((s.coupling hb alarm).matching k k' rs).Blocks b b := by
  have hm := Coupling.blocks_map (K := s.coupling hb alarm) (b := b) fun u _ => ⟨h, h'⟩
  rwa [show b.map (s.coupling hb alarm).image = b from b.map_id] at hm

theorem runs_entry (e : Entry (Fin s.size) α) (h : s.Ample k rs) (h' : s.Ample k' rs) :
    ((s.coupling hb alarm).matching k k' rs).Runs Eq
      (e.watched (s.watch alarm) ((s.watch alarm).ofDepth (s.within bound) k))
      (e.run (.ofDepth s.diagram k')) := by
  have hg := (s.coupling hb alarm).builders k k' rs
  have hc := rel_self hb alarm h h'
  have hbl := blocks_self hb alarm h h'
  induction e generalizing rs with
  | expression r => exact hg.expression ⟨rfl, h, h'⟩
  | statement r => exact hg.statement ⟨rfl, h, h'⟩
  | value child context default => exact hg.value (hc child) context default
  | sequence top => exact hg.sequence (hc top)
  | records top => exact (hg.fragments (hc top)).bind_eq fun _ => .pure rfl
  | localTransition b => exact hg.localTransition (hbl b)
  | collect top build ih =>
    -- What is built from a block of the stack is built inside that block.
    apply hg.collect (hc top)
    intro r r' hr
    obtain rfl : r = r' := hr.1.symm
    rw [Watch.diagram_ofDepth, Generator.diagram_ofDepth]
    apply Coupling.visiting (K := s.coupling hb alarm) ⟨h, h'⟩
    intro hn
    have ha := h.succ.inside hn
    have ha' := h'.succ.inside hn
    exact ih (s.block r) ha ha' ((s.coupling hb alarm).builders k k' _) (rel_self hb alarm ha ha')
      (blocks_self hb alarm ha ha')
  | state b => exact hg.state (hbl b)
  | program root beside =>
    exact hg.program ⟨rfl, h, h'⟩ (List.forall₂_same.2 fun r _ => ⟨rfl, h, h'⟩)

end

theorem eq_of_ends {bound : Nat} {hb : s.size ≤ bound} {alarm : Fault}
    {u v : EStateM.Result Fault (Context (Fin s.size)) α}
    (h : ((s.coupling hb alarm).matching k k' rs).Ends Eq u v) :
    u = v ∧ ∃ c : Context (Fin s.size), c.active = rs ∧
      ((∃ a, v = .ok a c) ∨ ∃ f, v = .error f c ∧ f ≠ .defect .tooDeep) :=
  Coupling.eq_of_ends rfl h

/-- Wherever a compilation begins, it comes to an answer or to a fault, and not for want of depth. A
larger bound makes no difference to it, and a watch that allows only different blocks inside each
other, as many as there are, is never alarmed. -/
theorem run_terminates (s : Sketch) (e : Entry (Fin s.size) α) (c : Context (Fin s.size))
    (hc : c.active.Nodup) :
    (∃ c' : Context (Fin s.size), c'.active = c.active ∧
      ((∃ a, e.run s.diagram.generator c = .ok a c') ∨
        ∃ f, e.run s.diagram.generator c = .error f c' ∧ f ≠ .defect .tooDeep)) ∧
    ∀ bound, s.size ≤ bound → ∀ alarm,
      e.watched (s.watch alarm) ((s.watch alarm).generator (s.within bound)) c =
        e.run s.diagram.generator c := by
  have hends (bound : Nat) (hb : s.size ≤ bound) (alarm : Fault) :=
    eq_of_ends (runs_entry hb alarm e (.start hb hc) (.start (Nat.le_refl s.size) hc) c c
      ⟨rfl, ⟨rfl, (List.map_id c.active).symm⟩, List.forall₂_eq_eq_eq ▸ rfl⟩)
  refine ⟨(hends s.size (Nat.le_refl _) (.defect .tooDeep)).2, ?_⟩
  intro bound hb alarm
  exact (hends bound hb alarm).1

/-- Two negations that stand inside each other. -/
def ring : Sketch where
  size := 2
  block i :=
    { kind := "logic_negate", id := some (if i = 0 then "a" else "b"),
      values := [("BOOL", some (1 - i))] }

/-- Inside the second negation, the first one is entered and finds the second one again. -/
theorem ring_terminates :
    let c : Context (Fin ring.size) := { active := [(1 : Fin 2)] }
    let cycle := EStateM.Result.error (.rule (.cycle ⟨some "b", "logic_negate"⟩)) c
    let watch := ring.watch (.defect .alreadyDrained)
    c.active.Nodup ∧ (Entry.expression (0 : Fin 2)).run ring.diagram.generator c = cycle ∧
      (Entry.expression (0 : Fin 2)).watched watch (watch.generator (ring.within 7)) c = cycle := by
  intro c cycle watch
  have hc : c.active.Nodup := List.nodup_singleton _
  have hr : (Entry.expression (0 : Fin 2)).run ring.diagram.generator c = cycle := by rfl
  refine ⟨hc, hr, ?_⟩
  rw [← hr]
  exact (run_terminates ring (.expression (0 : Fin 2)) c hc).2 7 (by decide) _

end Sketch
end BlockMachine
