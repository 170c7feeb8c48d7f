import BlockMachine.Proofs.Text.Literal

namespace BlockMachine.Text

section

variable {p : Char → Prop} (hp : ∀ k : Fin 16, p (k : Nat).digitChar)
include hp

theorem forall_mem_hex4 (n : Nat) : ∀ d ∈ hex4 n, p d := by
  have hd (m : Nat) : p (m % 16).digitChar := hp ⟨m % 16, Nat.mod_lt _ (by decide)⟩
  simp only [hex4, List.map_cons, List.map_nil, List.forall_mem_cons]
  exact ⟨hd _, hd _, hd _, hd _, nofun⟩

theorem forall_mem_unitEscape (hb : p '\\') (hu : p 'u') (n : Nat) : ∀ d ∈ unitEscape n, p d :=
  List.forall_mem_cons.2 ⟨hb, List.forall_mem_cons.2 ⟨hu, forall_mem_hex4 hp n⟩⟩

end

theorem le_of_mem_escape (c : Char) : ∀ d ∈ escape c, 0x20 ≤ d.toNat := by
  have he := escaped c
  generalize escape c = e at he
  cases he with
  | short hm =>
    have hall : shortEscapes.all (fun e => decide (0x20 ≤ e.toNat)) = true := by decide
    have he := of_decide_eq_true (List.all_eq_true.1 hall _ hm)
    exact List.forall_mem_cons.2 ⟨by decide, List.forall_mem_singleton.2 he⟩
  | unit => exact forall_mem_unitEscape (by decide) (by decide) (by decide) _
  | plain hc => exact List.forall_mem_singleton.2 hc

theorem le_of_mem_quoteWith (cs : List Char) : ∀ d ∈ quoteWith escape cs, 0x20 ≤ d.toNat := by
  have hq : 0x20 ≤ '"'.toNat := by decide
  refine List.forall_mem_cons.2 ⟨hq, List.forall_mem_append.2 ⟨?_, List.forall_mem_singleton.2 hq⟩⟩
  intro d hd
  obtain ⟨c, -, hd⟩ := List.mem_flatMap.1 hd
  exact le_of_mem_escape c d hd

end BlockMachine.Text
