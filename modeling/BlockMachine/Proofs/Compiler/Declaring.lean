import BlockMachine.Proofs.Compiler.Recording
import Mathlib.Data.List.Dedup

namespace BlockMachine

open Position (deeds deeds_append deeds_cons deeds_singleton deeds_flatMap deeds_map)

section

variable {fields sockets : List String} {bodies : List (String × Place)} {place : Place} {t : Tree}

theorem Plain.deeds (h : Plain t.block.kind fields sockets bodies)
    (hm : t.block.kind ∈ place.kinds) (hv : place ≠ .value) (hs : place ≠ .statement) :
    Position.deeds [⟨place, t⟩] =
      Position.deeds (sockets.flatMap (t.inSocket (place.inner t.block.site))) ++
        Position.deeds (bodies.flatMap t.inStack) := by
  have hn : (Position.mk place t).deed? = none :=
    Position.deed?_eq_none (fun he => absurd he hv) fun he => absurd he hs
  rw [deeds_singleton, hn, h.parts hm, deeds_append]
  exact List.append_nil _

end

namespace Position

theorem deeds_of_misplaced {place : Place} {t : Tree} (h : t.block.kind ∉ place.kinds)
    (hv : place ≠ .value) (hs : place ≠ .statement) : deeds [⟨place, t⟩] = [] := by
  have hn : (Position.mk place t).deed? = none :=
    deed?_eq_none (fun he => absurd he hv) fun he => absurd he hs
  have hc : ¬ (place = .statement ∧ t.block.kind = "controls_if") := fun hc => hs hc.1
  rw [deeds_singleton, hn, parts, if_neg hc, reads, if_neg h]
  rfl

theorem deeds_stateName (wrapper : Site) (t : Tree) : deeds [⟨.stateName wrapper, t⟩] = [] := by
  by_cases hm : t.block.kind ∈ (Place.stateName wrapper).kinds
  · rcases List.mem_cons.1 hm with hk | hk
    · exact (Plain.stateReference hk).deeds hm nofun nofun
    · exact (Plain.text (List.mem_singleton.1 hk)).deeds hm nofun nofun
  · exact deeds_of_misplaced hm nofun nofun

theorem deeds_interruption (t : Tree) : deeds [⟨.interruption, t⟩] = [] := by
  by_cases hm : t.block.kind ∈ Place.interruption.kinds
  · rcases List.mem_cons.1 hm with hk | hk
    · exact (Plain.stateReference hk).deeds hm (by decide) (by decide)
    · have hp := Plain.stateReferenceStatement (List.mem_singleton.1 hk)
      rw [hp.deeds hm (by decide) (by decide), List.flatMap_singleton, Tree.inSocket, deeds_map]
      change (t.block.value? "STATE").toList.flatMap
        (fun u => deeds [⟨.stateName t.block.site, u⟩]) ++ [] = []
      rw [List.append_nil]
      exact List.flatMap_eq_nil_iff.2 fun u _ => deeds_stateName t.block.site u
  · exact deeds_of_misplaced hm (by decide) (by decide)

end Position

namespace Recorder

variable {ts : List Tree} {n : Nat} {g : Generator Tree} {t : Tree}

theorem localBlock (h : Recorder ts n g) (hb : Contract.Held (Room ts n) t.block) :
    (g.localTransition t.block).Does (deeds [⟨.localTransition, t⟩]) := by
  by_cases hk : t.block.kind = Catalog.localTransitionKind
  · have hm : t.block.kind ∈ Place.localTransition.kinds := by
      rw [hk]
      decide
    rw [(Plain.localTransition hk).deeds hm (by decide) (by decide), List.flatMap_singleton]
    exact (List.append_nil _).symm ▸ h.localTransition hb
  · rw [Generator.localTransition, if_pos hk]
    exact .fail _

theorem transitions (h : Recorder ts n g) (hb : Contract.Held (Room ts n) t.block)
    (hk : t.block.kind ≠ "action_sequence") :
    (g.collect (t.block.head? "TRANSITIONS") g.localTransition).Does
      (deeds (t.inStack ("TRANSITIONS", .localTransition))) := by
  have ht : ∀ u, t.block.head? "TRANSITIONS" = some u → Room ts n u := fun u hu => hb.head? hu
  rw [Generator.collect, Watch.collect, h.stack ht, Tree.inStack, Tree.readStack_of_ne hk,
    deeds_map]
  apply Compile.Does.mapM
  intro u hu
  rw [h.block, h.diagram]
  exact (h.localBlock (Room.stackedOption ht u hu).succ.held).visiting

theorem state (h : Recorder ts n g) (hb : Contract.Held (Room ts n) t.block) :
    (g.state t.block).Does (deeds [⟨.state, t⟩]) := by
  rw [Generator.state, Watch.state]
  by_cases hk : t.block.kind = Catalog.stateKind
  · have hp := Plain.state hk
    have hn : t.block.kind ≠ "action_sequence" := hp.ne_sequence (by decide)
    have hi : deeds (t.inStack ("INTERRUPTIBLE_BY", .interruption)) = [] := by
      rw [Tree.inStack, deeds_map]
      exact List.flatMap_eq_nil_iff.2 fun u _ => Position.deeds_interruption u
    have hm : t.block.kind ∈ Place.state.kinds := by
      rw [hk]
      decide
    rw [if_neg (not_not.2 hk), hp.deeds hm (by decide) (by decide), List.flatMap_nil, deeds_flatMap]
    change Compile.Does _ (_ ++ (_ ++ (_ ++ (_ ++ (deeds (t.inStack _) ++ [])))))
    rw [hi]
    apply (Compile.Does.lift _).after
    intro name _
    apply (Compile.Does.log _).after
    intro _ _
    apply (h.sequence hb hn "ON_ENTER").bind
    intro onEnter _
    apply (h.sequence hb hn "ON_EXECUTE").bind
    intro onExecute _
    apply (h.sequence hb hn "ON_EXIT").bind
    intro onExit _
    apply (h.transitions hb hn).bind
    intro transitions _
    exact (Compile.Does.lift _).map _
  · rw [if_pos hk]
    exact .fail _

theorem globalBlock (h : Recorder ts n g) (ht : Room ts n t) :
    (g.globalBlock t).Does (deeds [⟨.globalTransition, t⟩]) := by
  rw [Generator.globalBlock, h.block]
  by_cases hm : t.block.kind ∈ Place.globalTransition.kinds
  · rw [(Plain.globalTransition hm).deeds hm (by decide) (by decide), List.flatMap_singleton]
    change Compile.Does _ (_ ++ [])
    rw [List.append_nil]
    split
    · exact .fail _
    · apply (Compile.Does.lift _).after
      intro target _
      exact (h.value ht.succ.held "CONDITION" _ _).map _
  · rw [Generator.globalTier?_eq_none_iff.2 hm]
    exact .fail _

theorem preambleBlock (h : Recorder ts n g) (ht : Room ts n t) :
    (g.preambleBlock t).Does
      (deeds (([t].filter (·.block.kind ∈ Catalog.definitionKinds)).map (⟨.statement, ·⟩))) := by
  rw [Generator.preambleBlock, h.block]
  split
  · rename_i hk
    rw [List.filter_singleton, decide_eq_true (List.contains_iff_mem.1 hk)]
    exact (h.statement ht).map _
  · rename_i hk
    rw [List.filter_singleton, decide_eq_false (mt List.contains_iff_mem.2 hk)]
    exact .log _

theorem preamble (h : Recorder ts n g) {tops : List Tree} (ht : ∀ t ∈ tops, Room ts n t) :
    (g.preamble tops).Does (deeds (tops.flatMap fun top =>
      (top.stacked.filter (·.block.kind ∈ Catalog.definitionKinds)).map (⟨.statement, ·⟩))) := by
  induction tops with
  | nil => exact .pure ()
  | cons top tops ih =>
    obtain ⟨htop, htops⟩ := List.forall_mem_cons.1 ht
    have hs : ∀ t, some top = some t → Room ts n t := fun t he => Option.some.inj he ▸ htop
    have hf : top.stacked.flatMap (fun u => deeds
        (([u].filter (·.block.kind ∈ Catalog.definitionKinds)).map (⟨.statement, ·⟩))) =
        deeds ((top.stacked.filter (·.block.kind ∈ Catalog.definitionKinds)).map
          (⟨.statement, ·⟩)) := by
      rw [← deeds_flatMap, ← List.map_flatMap, ← List.filter_flatMap, List.flatMap_singleton']
    rw [Generator.preamble, h.stack hs, List.flatMap_cons, deeds_append, ← hf]
    have hx := Compile.Does.forM fun u hu => h.preambleBlock (Room.stackedOption hs u hu)
    rw [Tree.stackedOption] at hx ⊢
    exact hx.bind fun _ _ => ih htops

theorem statesFrom (h : Recorder ts n g) (states : Table State) {us : List Tree}
    (hu : ∀ u ∈ us, Room ts n u) :
    (g.statesFrom states us).Does (deeds (us.map (⟨.state, ·⟩))) := by
  induction us generalizing states with
  | nil => exact .pure states
  | cons u us ih =>
    obtain ⟨hu, hus⟩ := List.forall_mem_cons.1 hu
    rw [Generator.statesFrom, Watch.statesFrom, h.block, List.map_cons, deeds_cons]
    apply (h.state hu.succ.held).bind
    intro state _
    split
    · exact (Compile.Does.log _).after fun _ _ => ih _ hus
    · exact ih _ hus

theorem program (h : Recorder ts n g) {root : Tree} {beside : List Tree} (hr : Room ts n root)
    (hb : ∀ t ∈ beside, Room ts n t) :
    (g.program root beside).Closes (deeds (Position.entrances root beside)) := by
  rw [Generator.program, Watch.program, h.block]
  by_cases hk : root.block.kind = Catalog.rootKind
  · have hp := Plain.root hk
    have hn : root.block.kind ≠ "action_sequence" := hp.ne_sequence (by decide)
    have hh (socket : String) : ∀ u, root.block.head? socket = some u → Room ts n u :=
      fun u hu => hr.succ.held.head? hu
    have hm : root.block.kind ∈ Place.root.kinds := by
      rw [hk]
      decide
    have hd := hp.deeds hm (by decide) (by decide)
    rw [deeds_flatMap [("STATES", Place.state), _]] at hd
    change _ = [] ++ (deeds (root.inStack _) ++ (deeds (root.inStack _) ++ [])) at hd
    rw [if_neg (not_not.2 hk), h.stack (hh "STATES"), h.stack (hh "GLOBAL_TRANSITIONS"),
      Position.entrances, deeds_append, hd, Tree.inStack, Tree.inStack, Tree.readStack_of_ne hn,
      Tree.readStack_of_ne hn]
    apply (h.preamble hb).closes
    intro _ _
    apply (Compile.Does.lift _).closes
    intro initialState _
    apply (h.statesFrom [] (Room.stackedOption (hh "STATES"))).closes
    intro states _
    rw [deeds_map]
    apply (Compile.Does.mapM fun u hu =>
      h.globalBlock (Room.stackedOption (hh "GLOBAL_TRANSITIONS") u hu)).closes
    intro transitions _
    exact Compile.Closes.drain (p := ⟨[], initialState, states,
      transitions.filter (·.tier = .tactical), transitions.filter (·.tier = .emergency)⟩)
      fun entries c => rfl
  · rw [if_pos hk]
    intro c _
    rfl

end Recorder

theorem Tree.compile_definitions {ts : List Tree} {root : Tree} {beside : List Tree}
    {p : Program} (hr : root ∈ ts) (hb : ∀ t ∈ beside, t ∈ ts)
    (h : ((diagram ts).compile root beside).result = .ok p) :
    p.definitions =
      (({} : Definitions).after (deeds (Position.entrances root beside))).entries := by
  have hd := Recorder.ofDepth ts ((diagram ts).bound + 1)
  have hp := hd.program (.generator hr) (fun t ht => .generator (hb t ht)) {} rfl
  rw [← Compile.result_start] at hp
  change ((diagram ts).compile root beside).result = _ at hp
  rw [h] at hp
  obtain ⟨q, -, hq⟩ := map_eq_ok.1 hp.symm
  rw [← hq]

end BlockMachine
